import Screening.Proofs.Token.Coverage
import Screening.Proofs.Token.Seams

/-!
# Where a scan fails

A scan comes from one boundary to the next over a blank or over the longest lexeme. It fails exactly
if it comes to a boundary where neither stands, and there it fails at the character behind it. The
text before that character is scanned without failure.
-/

namespace Screening

open Text

namespace Token

/-! ## Boundaries -/

/-- In a text that is `before` and then `rest` the scan comes to stand between the two. -/
inductive Boundary : List Char → List Char → Prop
  | start (cs : List Char) : Boundary [] cs
  | blank {before : List Char} {c : Char} {rest : List Char} : Boundary before (c :: rest) →
      isSpace c = true → Boundary (before ++ [c]) rest
  | lexeme {before raw rest : List Char} : Boundary before (raw ++ rest) →
      Lexeme.Longest raw (raw ++ rest) → Boundary (before ++ raw) rest

variable {keepCase : Bool}

theorem Boundary.scans {before rest : List Char} (h : Boundary before rest) (keepCase : Bool) :
    ∃ ts, Scans keepCase 0 (before ++ rest) ts (byteLength before) rest := by
  induction h with
  | start => exact ⟨[], .done⟩
  | @blank before c rest _ hc ih =>
    obtain ⟨ts, hs⟩ := ih
    refine ⟨ts ++ [], ?_⟩
    rw [List.append_assoc, List.singleton_append, byteLength_append]
    exact hs.append (.space hc .done)
  | @lexeme before raw rest _ hraw ih =>
    obtain ⟨ts, hs⟩ := ih
    obtain ⟨x, hx, rfl⟩ := Lexeme.longest_iff.1 hraw
    have hrest : x.rest = rest := List.append_cancel_left (Lexeme.front?_eq_some hx).1.symm
    refine ⟨ts ++ [x.token keepCase (byteLength before)], ?_⟩
    rw [List.append_assoc, byteLength_append]
    exact hs.append (.lexeme hx (hrest ▸ .done))

theorem Scans.boundary {p q : Nat} {cs rest : List Char} {ts : List Token}
    (h : Scans keepCase p cs ts q rest) :
    ∀ {before}, Boundary before cs → p = byteLength before →
      ∃ front, cs = front ++ rest ∧ Boundary (before ++ front) rest ∧
        q = byteLength (before ++ front) := by
  induction h with
  | done =>
    intro before hb hp
    exact ⟨[], rfl, by rwa [List.append_nil], by rwa [List.append_nil]⟩
  | @space p c cs ts q rest hc _ ih =>
    intro before hb hp
    have hplace : p + c.utf8Size = byteLength (before ++ [c]) := by
      rw [byteLength_append, hp]
      rfl
    obtain ⟨front, rfl, hfront, hq⟩ := ih (hb.blank hc) hplace
    rw [List.append_assoc] at hfront hq
    exact ⟨c :: front, rfl, hfront, hq⟩
  | @lexeme p cs x ts q rest hx _ ih =>
    intro before hb hp
    have hcs := (Lexeme.front?_eq_some hx).1
    rw [hcs] at hb hx
    have hplace : p + byteLength x.raw = byteLength (before ++ x.raw) := by
      rw [byteLength_append, hp]
    obtain ⟨front, hrest, hfront, hq⟩ :=
      ih (hb.lexeme (Lexeme.longest_iff.2 ⟨x, hx, rfl⟩)) hplace
    rw [List.append_assoc] at hfront hq
    exact ⟨x.raw ++ front, by rw [hcs, hrest, List.append_assoc], hfront, hq⟩

/-! ## Failure -/

/-- The scan of the text comes to stand before `c`, which is no blank and begins no lexeme. -/
structure Stuck (text : String) (before : List Char) (c : Char) (rest : List Char) : Prop where
  text : text.toList = before ++ c :: rest
  boundary : Boundary before (c :: rest)
  notSpace : isSpace c = false
  noLexeme : ∀ kind raw, raw <+: c :: rest → ¬Lexeme.IsLexeme kind raw

theorem scanFrom_stuck {p q : Nat} {cs rest : List Char} {ts : List Token}
    (h : Scans keepCase p cs ts q rest) {c : Char} {after : List Char}
    (hc : isSpace c = false) (hfront : Lexeme.front? (c :: after) = none) :
    ∀ {steps}, rest = c :: after → cs.length ≤ steps →
      scanFrom keepCase steps p cs = .error ⟨c, q⟩ := by
  induction h with
  | done =>
    rintro steps rfl hsteps
    obtain ⟨steps, rfl⟩ := Nat.exists_eq_add_of_le' (Nat.le_of_add_left_le hsteps)
    simp [scanFrom, hc, hfront, byteLength]
  | space hd _ ih =>
    intro steps hrest hsteps
    obtain ⟨steps, rfl⟩ := Nat.exists_eq_add_of_le' (Nat.le_of_add_left_le hsteps)
    rw [scanFrom_space hd]
    exact ih hrest (Nat.le_of_lt hsteps)
  | lexeme hx _ ih =>
    intro steps hrest hsteps
    have hlt := Lexeme.length_rest_lt hx
    obtain ⟨steps, rfl⟩ := Nat.exists_eq_add_of_le' (show 1 ≤ steps by omega)
    rw [scanFrom_lexeme hx, ih hrest (by omega)]
    rfl

theorem scans_of_error {steps : Nat} :
    ∀ {p : Nat} {cs : List Char} {e : LexError}, scanFrom keepCase steps p cs = .error e →
      ∃ ts after, Scans keepCase p cs ts e.position (e.character :: after) ∧
        isSpace e.character = false ∧ Lexeme.front? (e.character :: after) = none := by
  induction steps with
  | zero =>
    intro p cs e h
    cases h
  | succ steps ih =>
    intro p cs e h
    have hsplit := List.takeWhile_append_dropWhile (p := isSpace) (l := cs)
    have hblanks : ∀ c ∈ cs.takeWhile isSpace, isSpace c = true :=
      fun c hc => List.mem_takeWhile_imp hc
    suffices hlater : ∃ ts after, Scans keepCase (p + byteLength (cs.takeWhile isSpace))
        (cs.dropWhile isSpace) ts e.position (e.character :: after) ∧
        isSpace e.character = false ∧ Lexeme.front? (e.character :: after) = none by
      obtain ⟨ts, after, hs, hstuck⟩ := hlater
      exact ⟨ts, after, hsplit ▸ Scans.spaces hblanks hs, hstuck⟩
    simp only [scanFrom] at h
    split at h
    · cases h
    · next c later hd =>
      rw [hd]
      split at h
      · next hfront =>
        cases h
        have hc := List.head?_dropWhile_not (p := isSpace) (l := cs)
        rw [hd] at hc
        exact ⟨[], later, .done, hc, hfront⟩
      · next x hx =>
        cases hr : scanFrom keepCase steps
            (p + byteLength (cs.takeWhile isSpace) + byteLength x.raw) x.rest with
        | ok tokens =>
          rw [hr] at h
          cases h
        | error e' =>
          rw [hr] at h
          cases h
          obtain ⟨ts, after, hs, hstuck⟩ := ih hr
          exact ⟨_, after, .lexeme hx hs, hstuck⟩

/-- A scan fails at a character exactly if it is stuck there. -/
theorem scan_eq_error_iff {text : String} {e : LexError} :
    scan text keepCase = .error e ↔
      ∃ before rest, Stuck text before e.character rest ∧ e.position = byteLength before := by
  constructor
  · intro h
    obtain ⟨ts, rest, hs, hc, hfront⟩ := scans_of_error h
    obtain ⟨before, htext, hb, hp⟩ := hs.boundary (.start _) rfl
    exact ⟨before, rest, ⟨htext, hb, hc, Lexeme.front?_eq_none_iff.1 hfront⟩, hp⟩
  · rintro ⟨before, rest, hstuck, hp⟩
    obtain ⟨ts, hs⟩ := hstuck.boundary.scans keepCase
    have hfront := Lexeme.front?_eq_none_iff.2 hstuck.noLexeme
    rw [← hstuck.text] at hs
    obtain ⟨c, p⟩ := e
    obtain rfl : p = byteLength before := hp
    exact scanFrom_stuck hs hstuck.notSpace hfront rfl (Nat.le_refl _)

/-! ## Text before a boundary -/

/-- The text before a boundary is scanned without failure. -/
theorem Boundary.scan_before {before rest : List Char} (h : Boundary before rest)
    (keepCase : Bool) : ∃ ts, scan (String.ofList before) keepCase = .ok ts := by
  obtain ⟨ts, hs⟩ := h.scans keepCase
  obtain ⟨front, heq, hs⟩ := hs.replace Lexeme.replaces_nil 0
  obtain rfl := List.append_cancel_right heq
  rw [List.append_nil] at hs
  have hwhole : Scans keepCase 0 (String.ofList before).toList (ts.map (moved 0))
      (0 + byteLength before) [] := by
    rw [String.toList_ofList]
    exact hs
  exact ⟨_, scan_eq_ok_iff.2 ⟨_, hwhole⟩⟩

/-! ## Characters that begin no lexeme -/

/-- Why no lexeme begins with `c` where `rest` follows. -/
inductive Barren (c : Char) (rest : List Char) : Prop
  /-- No lexeme at all begins with the character. -/
  | foreign (h : Lexeme.isStart c = false)
  /-- A quote is not closed. -/
  | unclosed (hc : Lexeme.isQuote c = true) (hrest : c ∉ rest)
  /-- A minus sign has no digit behind it. -/
  | minus (hc : c = '-') (hrest : ∀ d ∈ rest.head?, d.isDigit = false)
  /-- An exclamation mark has no equals sign behind it. -/
  | exclamation (hc : c = '!') (hrest : rest.head? ≠ some '=')

/-- A character that begins no lexeme does so for one of these reasons. -/
theorem barren_of_noLexeme {c : Char} {rest : List Char}
    (h : ∀ kind raw, raw <+: c :: rest → ¬Lexeme.IsLexeme kind raw) : Barren c rest := by
  have hone : ∀ kind, ¬Lexeme.IsLexeme kind [c] := fun kind => h kind [c] ⟨rest, rfl⟩
  have htwo : ∀ kind d, d ∈ rest.head? → ¬Lexeme.IsLexeme kind [c, d] := by
    intro kind d hd
    obtain ⟨more, rfl⟩ := List.head?_eq_some_iff.1 hd
    exact h kind [c, d] ⟨more, rfl⟩
  by_cases hstart : Lexeme.isStart c = true
  case neg => exact .foreign (by simpa using hstart)
  simp only [Lexeme.isStart, Bool.or_eq_true, beq_iff_eq] at hstart
  rcases hstart with (((hd | hm) | hq) | hw) | hs
  · exact absurd (.whole false ⟨by simp, by simpa using hd⟩) (hone .number)
  · refine .minus hm fun d hd => ?_
    rw [← Bool.not_eq_true]
    intro hdigit
    subst hm
    exact htwo .number d hd (.whole true ⟨by simp, by simpa using hdigit⟩)
  · refine .unclosed hq fun hmem => ?_
    obtain ⟨body, tail, rfl, hbody⟩ := List.eq_append_cons_of_mem hmem
    exact h .string (c :: (body ++ [c])) ⟨tail, by simp⟩ (.string hq hbody)
  · exact absurd (.word (by simp [Lexeme.isWord, hw])) (hone _)
  · rcases Lexeme.isSign_iff.1 hs with rfl | hbang | rfl | rfl | rfl | rfl | rfl
    · exact absurd (.sign (by decide)) (hone .comparisonOp)
    · refine .exclamation hbang fun hequal => ?_
      subst hbang
      exact htwo .comparisonOp '=' hequal (.sign (by decide))
    · exact absurd (.sign (by decide)) (hone .comparisonOp)
    · exact absurd (.sign (by decide)) (hone .comparisonOp)
    · exact absurd (.sign (by decide)) (hone .lparen)
    · exact absurd (.sign (by decide)) (hone .rparen)
    · exact absurd (.sign (by decide)) (hone .wildcard)

/-! ## The first failure -/

/-- A scan fails exactly if it gets stuck at a character that is no blank and begins no lexeme. It
fails at the first such character and tells its place, which is a place within the text. What stands
before it is scanned without failure, and the character itself is foreign to all lexemes, a quote that
is not closed, a minus sign without a digit or an exclamation mark without an equals sign. -/
theorem scan_fails_iff (text : String) (keepCase : Bool) :
    ((∃ e, scan text keepCase = .error e) ↔ ∃ before c rest, Stuck text before c rest) ∧
    ∀ e, scan text keepCase = .error e → ∃ before rest,
      Stuck text before e.character rest ∧ e.position = byteLength before ∧
      e.position < text.utf8ByteSize ∧
      (∀ before' c rest', Stuck text before' c rest' → e.position ≤ byteLength before') ∧
      (∃ ts, scan (String.ofList before) keepCase = .ok ts) ∧ Barren e.character rest := by
  constructor
  · constructor
    · rintro ⟨e, h⟩
      obtain ⟨before, rest, hstuck, -⟩ := scan_eq_error_iff.1 h
      exact ⟨before, e.character, rest, hstuck⟩
    · rintro ⟨before, c, rest, hstuck⟩
      exact ⟨⟨c, byteLength before⟩, scan_eq_error_iff.2 ⟨before, rest, hstuck, rfl⟩⟩
  · intro e h
    obtain ⟨before, rest, hstuck, hp⟩ := scan_eq_error_iff.1 h
    refine ⟨before, rest, hstuck, hp, ?_, ?_, hstuck.boundary.scan_before keepCase,
      barren_of_noLexeme hstuck.noLexeme⟩
    · rw [hp, ← byteLength_toList, hstuck.text, byteLength_append, byteLength]
      have := e.character.utf8Size_pos
      omega
    · intro before' c rest' hstuck'
      -- the scan fails at one place only
      have h' : scan text keepCase = .error ⟨c, byteLength before'⟩ :=
        scan_eq_error_iff.2 ⟨before', rest', hstuck', rfl⟩
      rw [h] at h'
      cases h'
      exact Nat.le_refl _

/-- A quote that is not closed, behind a string with a character of two bytes. -/
theorem scan_fails_iff_unclosed :
    scan "LOCATION='é' OR TIME=\"night" = .error ⟨'"', 22⟩ ∧ ∃ before rest,
      Stuck "LOCATION='é' OR TIME=\"night" before '"' rest ∧ 22 = byteLength before ∧
      22 < "LOCATION='é' OR TIME=\"night".utf8ByteSize ∧
      (∀ before' c rest', Stuck "LOCATION='é' OR TIME=\"night" before' c rest' →
        22 ≤ byteLength before') ∧
      (∃ ts, scan (String.ofList before) = .ok ts) ∧ Barren '"' rest := by
  have h : scan "LOCATION='é' OR TIME=\"night" = .error ⟨'"', 22⟩ := by decide +kernel
  exact ⟨h, (scan_fails_iff "LOCATION='é' OR TIME=\"night" true).2 _ h⟩

end Token

end Screening
