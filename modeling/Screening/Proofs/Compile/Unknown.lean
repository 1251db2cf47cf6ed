import Mathlib.Data.List.Induction
import Screening.Proofs.Compile.Legible

/-!
# Unknown fields

Which names are reported as unknown fields, said by the places of tokens: a token is judged by itself,
by the token behind it and by the two tokens in front of it. All names that are found are reported at
once, each at its first place, before the category has a say.
-/

namespace Screening

namespace Admission

/-! ## Misnamed places -/

/-- A token of this kind stands at the place. -/
def KindAt (ts : List Token) (i : Nat) (kind : TokenKind) : Prop :=
  ts[i]?.map Token.kind = some kind

/-- The token at a place stands for a field without being one, and this is its text. -/
inductive UnknownAt (ts : List Token) : Nat → String → Prop
  /-- A field token names no field. -/
  | field {i t} : ts[i]? = some t → t.kind = .field → t.text ∉ Named.names Field →
      UnknownAt ts i t.text
  /-- A bare word stands directly in front of a comparator. -/
  | compared {i t} : ts[i]? = some t → t.kind = .identifier → KindAt ts (i + 1) .comparisonOp →
      UnknownAt ts i t.text
  /-- A bare word stands directly behind a parenthesis that an aggregate function opens. -/
  | argument {i t} : ts[i + 2]? = some t → t.kind = .identifier →
      KindAt ts i .aggregateFunction → KindAt ts (i + 1) .lparen → UnknownAt ts (i + 2) t.text

theorem UnknownAt.lt_length {ts : List Token} {i : Nat} {name : String} (h : UnknownAt ts i name) :
    i < ts.length := by
  cases h with
  | field ht => exact (List.getElem?_eq_some_iff.1 ht).1
  | compared ht => exact (List.getElem?_eq_some_iff.1 ht).1
  | argument ht => exact (List.getElem?_eq_some_iff.1 ht).1

/-- The kinds of the last two tokens, the nearer one last. -/
def lastKinds (front : List Token) : Option TokenKind × Option TokenKind :=
  (front.dropLast.getLast?.map Token.kind, front.getLast?.map Token.kind)

theorem lastKinds_concat (front : List Token) (t : Token) :
    lastKinds (front ++ [t]) = ((lastKinds front).2, some t.kind) := by
  simp [lastKinds]

/-- An aggregate function and its parenthesis stand directly in front. -/
theorem lastKinds_eq_iff (front rest : List Token) :
    lastKinds front = (some .aggregateFunction, some .lparen) ↔
      ∃ i, front.length = i + 2 ∧ KindAt (front ++ rest) i .aggregateFunction ∧
        KindAt (front ++ rest) (i + 1) .lparen := by
  rcases front.eq_nil_or_concat' with rfl | ⟨init, opening, rfl⟩
  · simp [lastKinds]
  · rcases init.eq_nil_or_concat' with rfl | ⟨init, function, rfl⟩
    · simp [lastKinds]
    · simp [lastKinds, KindAt]

/-- The scan judges a token as its place does. -/
theorem unknownAt_iff_misnamed {front rest : List Token} {t : Token} {name : String} :
    UnknownAt (front ++ t :: rest) front.length name ↔
      misnamed (lastKinds front) t rest = true ∧ t.text = name := by
  have ht : (front ++ t :: rest)[front.length]? = some t := by simp
  have hnext : KindAt (front ++ t :: rest) (front.length + 1) .comparisonOp ↔
      (rest.head?.map Token.kind == some .comparisonOp) = true := by
    cases rest <;> simp [KindAt]
  have hbefore := lastKinds_eq_iff front (t :: rest)
  constructor
  · intro h
    generalize hplace : front.length = place at h
    cases h with
    | field hu hk hname =>
      rw [← hplace, ht] at hu
      cases hu
      rw [← Named.isName_iff, Bool.not_eq_true] at hname
      simp [misnamed, hk, hname]
    | compared hu hk hcomparator =>
      rw [← hplace, ht] at hu
      cases hu
      rw [← hplace, hnext] at hcomparator
      simp [misnamed, hk, hcomparator]
    | @argument i u hu hk hfunction hopening =>
      rw [← hplace, ht] at hu
      cases hu
      simp [misnamed, hk, hbefore.2 ⟨i, hplace, hfunction, hopening⟩]
  · rintro ⟨h, rfl⟩
    rw [misnamed] at h
    split at h
    · next hk =>
      refine .field ht hk ?_
      rwa [Bool.not_eq_true', ← Bool.not_eq_true, Named.isName_iff] at h
    · next hk =>
      rcases (Bool.or_eq_true ..).mp h with h | h
      · exact .compared ht hk (hnext.2 h)
      · obtain ⟨i, hi, hfunction, hopening⟩ := hbefore.1 (beq_iff_eq.1 h)
        rw [hi] at ht ⊢
        exact .argument ht hk hfunction hopening
    · cases h

/-! ## All places -/

/-- The misnamed places from `start` on, in order, each with the text that stands there. -/
structure Finds (ts : List Token) (start : Nat) (found : List (Nat × String)) : Prop where
  ordered : found.Pairwise fun a b => a.1 < b.1
  mem_iff : ∀ i name, (i, name) ∈ found ↔ start ≤ i ∧ UnknownAt ts i name

/-- The texts that a scan takes from the tokens ahead of it are those of the misnamed places there. -/
theorem exists_finds (rest front : List Token) :
    ∃ found, Finds (front ++ rest) front.length found ∧
      misnamedTexts (lastKinds front) rest = found.map Prod.snd := by
  induction rest generalizing front with
  | nil =>
    refine ⟨[], ⟨List.Pairwise.nil, fun i name => ?_⟩, rfl⟩
    rw [List.append_nil]
    constructor
    · exact fun h => absurd h List.not_mem_nil
    · rintro ⟨hi, h⟩
      exact absurd h.lt_length (Nat.not_lt.2 hi)
  | cons t rest ih =>
    obtain ⟨later, hlater, htexts⟩ := ih (front ++ [t])
    rw [List.append_assoc, List.singleton_append, List.length_append, List.length_singleton]
      at hlater
    rw [lastKinds_concat] at htexts
    simp only [misnamedTexts, htexts]
    -- the place of the token itself comes before all later places
    have hcases : ∀ i name, front.length ≤ i ∧ UnknownAt (front ++ t :: rest) i name ↔
        i = front.length ∧ misnamed (lastKinds front) t rest = true ∧ t.text = name ∨
          (i, name) ∈ later := by
      intro i name
      rw [hlater.mem_iff, ← unknownAt_iff_misnamed]
      constructor
      · rintro ⟨hi, h⟩
        rcases Nat.eq_or_lt_of_le hi with rfl | hlt
        · exact .inl ⟨rfl, h⟩
        · exact .inr ⟨hlt, h⟩
      · rintro (⟨rfl, h⟩ | ⟨hi, h⟩)
        · exact ⟨Nat.le_refl _, h⟩
        · exact ⟨Nat.le_of_succ_le hi, h⟩
    split
    · next h =>
      refine ⟨(front.length, t.text) :: later, ⟨?_, fun i name => ?_⟩, rfl⟩
      · refine List.pairwise_cons.2 ⟨fun a ha => ?_, hlater.ordered⟩
        exact ((hlater.mem_iff a.1 a.2).1 ha).1
      · rw [hcases, List.mem_cons, Prod.mk.injEq]
        simp [h, eq_comm]
    · next h =>
      refine ⟨later, ⟨hlater.ordered, fun i name => ?_⟩, rfl⟩
      rw [hcases]
      simp [h]

/-- What is left without repetitions keeps the order of the first places. -/
theorem pairwise_eraseDups {found : List (Nat × String)}
    (h : found.Pairwise fun a b => a.1 < b.1) :
    (found.map Prod.snd).eraseDups.Pairwise fun a b =>
      ∃ i, (i, a) ∈ found ∧ ∀ j, (j, b) ∈ found → i < j := by
  induction found using List.reverseRecOn with
  | nil => exact List.Pairwise.nil
  | append_singleton found last ih =>
    obtain ⟨place, text⟩ := last
    obtain ⟨hfound, -, hlast⟩ := List.pairwise_append.1 h
    have hlt : ∀ {i name}, (i, name) ∈ found → i < place := fun hi =>
      hlast _ hi _ (List.mem_singleton_self _)
    have hkept : (found.map Prod.snd).eraseDups.Pairwise fun a b =>
        ∃ i, (i, a) ∈ found ++ [(place, text)] ∧
          ∀ j, (j, b) ∈ found ++ [(place, text)] → i < j := by
      refine (ih hfound).imp ?_
      rintro a b ⟨i, hi, hfirst⟩
      refine ⟨i, List.mem_append_left _ hi, fun j hj => ?_⟩
      rcases List.mem_append.1 hj with hj | hj
      · exact hfirst j hj
      · obtain ⟨rfl, rfl⟩ := Prod.mk.inj (List.mem_singleton.1 hj)
        exact hlt hi
    rw [List.map_append, List.eraseDups_append]
    by_cases hseen : text ∈ found.map Prod.snd
    · have hnone : [text].removeAll (found.map Prod.snd) = [] := by
        simpa [List.removeAll] using hseen
      rw [List.map_singleton, hnone, List.eraseDups_nil, List.append_nil]
      exact hkept
    · have hone : [text].removeAll (found.map Prod.snd) = [text] := by
        simpa [List.removeAll] using hseen
      rw [List.map_singleton, hone, List.eraseDups_cons, List.filter_nil, List.eraseDups_nil]
      refine List.pairwise_append.2 ⟨hkept, List.pairwise_singleton .., fun a ha b hb => ?_⟩
      obtain rfl := List.mem_singleton.1 hb
      obtain ⟨⟨i, a⟩, hi, rfl⟩ := List.mem_map.1 (List.mem_eraseDups.1 ha)
      refine ⟨i, List.mem_append_left _ hi, fun j hj => ?_⟩
      rcases List.mem_append.1 hj with hj | hj
      · exact absurd (List.mem_map_of_mem hj) hseen
      · obtain ⟨rfl, -⟩ := Prod.mk.inj (List.mem_singleton.1 hj)
        exact hlt hi

/-! ## What is reported -/

/-- The names are the texts of all misnamed tokens, each once, in the order of their first places. -/
structure Reports (ts : List Token) (names : List String) : Prop where
  nodup : names.Nodup
  mem_iff : ∀ name, name ∈ names ↔ ∃ i, UnknownAt ts i name
  ordered : names.Pairwise fun a b => ∃ i, UnknownAt ts i a ∧ ∀ j, UnknownAt ts j b → i < j

theorem reports_unknownFields (ts : List Token) : Reports ts (unknownFields ts) := by
  obtain ⟨found, hfound, htexts⟩ := exists_finds ts []
  have hmem : ∀ i name, (i, name) ∈ found ↔ UnknownAt ts i name := by
    intro i name
    rw [hfound.mem_iff]
    exact and_iff_right (Nat.zero_le i)
  have hordered := pairwise_eraseDups hfound.ordered
  rw [← htexts] at hordered
  constructor
  case nodup =>
    refine hordered.imp ?_
    rintro a b ⟨i, hi, hfirst⟩ rfl
    exact absurd (hfirst i hi) (Nat.lt_irrefl i)
  case mem_iff =>
    intro name
    have hnames : unknownFields ts = (found.map Prod.snd).eraseDups := congrArg _ htexts
    simp only [hnames, List.mem_eraseDups, List.mem_map, Prod.exists, hmem, exists_eq_right]
  case ordered =>
    simp only [hmem] at hordered
    exact hordered

/-- Unknown fields are reported exactly if there are any, whatever the category. -/
theorem check_eq_unknownFields_iff {ts : List Token} {category : Category} {names : List String} :
    check ts category = .error (.unknownFields names) ↔ names = unknownFields ts ∧ names ≠ [] := by
  rw [check]
  split
  · next hnil =>
    rw [hnil]
    split <;> simp
  · next hne =>
    simp only [Except.error.injEq, Refusal.unknownFields.injEq]
    constructor
    · rintro rfl
      exact ⟨rfl, hne⟩
    · exact fun h => h.1.symm

end Admission

/-- A word of no other class is the name of no field. -/
theorem Lexeme.isName_eq_false_of_classify {word : String} (h : classify word = .identifier) :
    Named.isName Field word = false := by
  rw [classify] at h
  split at h
  · cases h
  · split at h
    · cases h
    · split at h
      · cases h
      · next hfield => exact Bool.not_eq_true _ ▸ hfield

/-- A scanned word has the class that its text has. -/
theorem Token.classify_of_scan {text : String} {keepCase : Bool} {ts : List Token}
    (h : scan text keepCase = .ok ts) {t : Token} (ht : t ∈ ts) (hword : t.kind.isWord = true) :
    Lexeme.classify t.text = t.kind := by
  obtain ⟨u, hu, rfl | rfl⟩ := exists_respells_of_scan h ht
  · exact hu.classify hword
  · rw [kind_raised] at hword ⊢
    have hne : u.kind ≠ .string := by
      rintro hs
      rw [hs] at hword
      cases hword
    rw [raised_of_ne_string hne]
    exact hu.classify hword

namespace Admission

/-- In a scanned text nothing that stands for a field without being one has the name of one. -/
theorem UnknownAt.not_mem_names {text : String} {keepCase : Bool} {ts : List Token}
    (hscan : Token.scan text keepCase = .ok ts) {i : Nat} {name : String} (h : UnknownAt ts i name) :
    name ∉ Named.names Field := by
  have hword : ∀ {j : Nat} {t : Token}, ts[j]? = some t → t.kind = .identifier →
      t.text ∉ Named.names Field := by
    intro j t ht hk
    have hclass := Token.classify_of_scan hscan (List.mem_of_getElem? ht) (by rw [hk]; rfl)
    rw [← Named.isName_iff, Lexeme.isName_eq_false_of_classify (hclass.trans hk)]
    exact Bool.false_ne_true
  cases h with
  | field _ _ hname => exact hname
  | compared ht hk => exact hword ht hk
  | argument ht hk => exact hword ht hk

/-- Unknown fields are reported before anything else: tokens are refused for them, in every category,
exactly if there is a misnamed place. Then the names are the texts of all misnamed tokens, each once and
in order of first appearance. Of a scanned text no field is among them. -/
theorem unknown_reported (ts : List Token) (category : Category) :
    ((∃ names, check ts category = .error (.unknownFields names)) ↔ ∃ i name, UnknownAt ts i name) ∧
      ∀ names, check ts category = .error (.unknownFields names) → Reports ts names ∧
        ∀ text keepCase, Token.scan text keepCase = .ok ts →
          ∀ name ∈ names, name ∉ Named.names Field := by
  have hreports := reports_unknownFields ts
  refine ⟨?_, fun names h => ?_⟩
  · simp only [check_eq_unknownFields_iff, exists_eq_left, ne_eq, List.eq_nil_iff_forall_not_mem,
      hreports.mem_iff, not_forall, not_not]
    exact exists_comm
  · obtain ⟨rfl, -⟩ := check_eq_unknownFields_iff.1 h
    refine ⟨hreports, fun text keepCase hscan name hname => ?_⟩
    obtain ⟨i, hi⟩ := (hreports.mem_iff name).1 hname
    exact hi.not_mem_names hscan

/-- Two names in front of comparators, one of them twice, and one as an argument. The category would
forbid the operators between them. -/
theorem unknown_reported_repeated :
    ∃ ts, Token.scan "FOO > 1 AND SUM(BAR) < 2 AND FOO != qux" = .ok ts ∧
      check ts .threshold = .error (.unknownFields ["FOO", "BAR"]) ∧
      Reports ts ["FOO", "BAR"] ∧ ∀ name ∈ ["FOO", "BAR"], name ∉ Named.names Field := by
  have hrun : (Token.scan "FOO > 1 AND SUM(BAR) < 2 AND FOO != qux").map (check · .threshold) =
      .ok (.error (.unknownFields ["FOO", "BAR"])) := by
    decide +kernel
  cases hscan : Token.scan "FOO > 1 AND SUM(BAR) < 2 AND FOO != qux" with
  | error e =>
    rw [hscan] at hrun
    cases hrun
  | ok ts =>
    rw [hscan] at hrun
    have hcheck : check ts .threshold = .error (.unknownFields ["FOO", "BAR"]) := Except.ok.inj hrun
    obtain ⟨hreports, hnames⟩ := (unknown_reported ts .threshold).2 _ hcheck
    exact ⟨ts, rfl, hcheck, hreports, hnames _ true hscan⟩

end Admission

end Screening
