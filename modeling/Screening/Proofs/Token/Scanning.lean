import Screening.Proofs.Token.Lexeme
import Screening.Token.Scan

/-!
# Scanning as a relation

A scan goes over spaces and lexemes in any order. Said as a relation it also covers a front part
of a text, with the characters that follow in place, so scans of parts can be put together without
splitting a lexeme that goes on.
-/

namespace Screening.Token

open Text

variable {keepCase : Bool}

/-- `Scans keepCase p cs ts q rest`: from place `p` a front part of `cs` is scanned as the tokens
`ts`, and `rest` is left at place `q`. -/
inductive Scans (keepCase : Bool) : Nat → List Char → List Token → Nat → List Char → Prop
  | done {p cs} : Scans keepCase p cs [] p cs
  | space {p c cs ts q rest} : isSpace c = true →
      Scans keepCase (p + c.utf8Size) cs ts q rest → Scans keepCase p (c :: cs) ts q rest
  | lexeme {p cs x ts q rest} : Lexeme.front? cs = some x →
      Scans keepCase (p + byteLength x.raw) x.rest ts q rest →
      Scans keepCase p cs (x.token keepCase p :: ts) q rest

namespace Scans

theorem append {p cs ts q ds us r rest} (h : Scans keepCase p cs ts q ds)
    (h' : Scans keepCase q ds us r rest) : Scans keepCase p cs (ts ++ us) r rest := by
  induction h with
  | done => exact h'
  | space hs _ ih => exact .space hs (ih h')
  | lexeme hx _ ih => exact .lexeme hx (ih h')

theorem spaces {blanks : List Char} (hb : ∀ c ∈ blanks, isSpace c = true) :
    ∀ {p cs ts q rest}, Scans keepCase (p + byteLength blanks) cs ts q rest →
      Scans keepCase p (blanks ++ cs) ts q rest := by
  induction blanks with
  | nil =>
    intro p cs ts q rest h
    exact h
  | cons c blanks ih =>
    intro p cs ts q rest h
    obtain ⟨hc, hblanks⟩ := List.forall_mem_cons.1 hb
    rw [byteLength, ← Nat.add_assoc] at h
    exact .space hc (ih hblanks h)

/-- Every token is a lexeme of the text. -/
theorem exists_lexeme {p cs ts q rest} (h : Scans keepCase p cs ts q rest) :
    ∀ t ∈ ts, ∃ x : Lexeme, x.Shape ∧ ∃ place, t = x.token keepCase place := by
  induction h with
  | done => simp
  | space _ _ ih => exact ih
  | @lexeme p _ x _ _ _ hx _ ih =>
    exact List.forall_mem_cons.2 ⟨⟨x, (Lexeme.front?_eq_some hx).2, p, rfl⟩, ih⟩

end Scans

/-! ## The scanner -/

theorem scanFrom_space {c : Char} (hc : isSpace c = true) (steps p : Nat) (cs : List Char) :
    scanFrom keepCase (steps + 1) p (c :: cs) =
      scanFrom keepCase (steps + 1) (p + c.utf8Size) cs := by
  simp only [scanFrom, List.takeWhile_cons, List.dropWhile_cons, hc, if_true, byteLength,
    Nat.add_assoc]

theorem scanFrom_lexeme {cs : List Char} {x : Lexeme} (hx : Lexeme.front? cs = some x)
    (steps p : Nat) :
    scanFrom keepCase (steps + 1) p cs = (do
      let tokens ← scanFrom keepCase steps (p + byteLength x.raw) x.rest
      return x.token keepCase p :: tokens) := by
  obtain ⟨hcs, hshape⟩ := Lexeme.front?_eq_some hx
  obtain ⟨c, raw, hraw, hc⟩ := hshape.not_space
  rw [hraw, List.cons_append] at hcs
  rw [hcs] at hx ⊢
  simp [scanFrom, hc, hx, byteLength]

/-- What the relation scans to the end the scanner scans. -/
theorem scanFrom_of_scans {p cs ts q rest} (h : Scans keepCase p cs ts q rest) :
    ∀ {steps}, rest = [] → cs.length ≤ steps → scanFrom keepCase steps p cs = .ok ts := by
  induction h with
  | done =>
    rintro steps rfl -
    cases steps <;> rfl
  | space hc _ ih =>
    intro steps hrest hsteps
    obtain ⟨steps, rfl⟩ := Nat.exists_eq_add_of_le' (Nat.le_of_add_left_le hsteps)
    rw [scanFrom_space hc]
    exact ih hrest (Nat.le_of_lt hsteps)
  | lexeme hx _ ih =>
    intro steps hrest hsteps
    -- a lexeme costs one step and takes one character at least
    have hlt := Lexeme.length_rest_lt hx
    obtain ⟨steps, rfl⟩ := Nat.exists_eq_add_of_le' (show 1 ≤ steps by omega)
    rw [scanFrom_lexeme hx, ih hrest (by omega)]
    rfl

theorem scans_of_scanFrom {steps : Nat} :
    ∀ {p cs ts}, scanFrom keepCase steps p cs = .ok ts → cs.length ≤ steps →
      ∃ q, Scans keepCase p cs ts q [] := by
  induction steps with
  | zero =>
    intro p cs ts h hsteps
    obtain rfl : cs = [] := List.length_eq_zero_iff.1 (Nat.le_zero.1 hsteps)
    cases h
    exact ⟨p, .done⟩
  | succ steps ih =>
    intro p cs ts h hsteps
    -- the spaces in front are scanned first, whatever follows
    have hsplit := List.takeWhile_append_dropWhile (p := isSpace) (l := cs)
    have hblanks : ∀ c ∈ cs.takeWhile isSpace, isSpace c = true :=
      fun c hc => List.mem_takeWhile_imp hc
    suffices hlater : ∃ q, Scans keepCase (p + byteLength (cs.takeWhile isSpace))
        (cs.dropWhile isSpace) ts q [] by
      obtain ⟨q, hq⟩ := hlater
      exact ⟨q, hsplit ▸ Scans.spaces hblanks hq⟩
    simp only [scanFrom] at h
    split at h
    · next hd =>
      cases h
      rw [hd]
      exact ⟨_, .done⟩
    · next c later hd =>
      rw [hd]
      split at h
      · cases h
      · next x hx =>
        have hlength : (c :: later).length ≤ cs.length := by
          rw [← hd]
          exact (List.dropWhile_sublist isSpace).length_le
        have hlt := Lexeme.length_rest_lt hx
        cases hr : scanFrom keepCase steps
            (p + byteLength (cs.takeWhile isSpace) + byteLength x.raw) x.rest with
        | error e => rw [hr] at h; cases h
        | ok tokens =>
          rw [hr] at h
          cases h
          obtain ⟨q, hq⟩ := ih hr (by omega)
          exact ⟨q, .lexeme hx hq⟩

/-- Scanning a text gives the tokens that the relation gives for all of it. -/
theorem scan_eq_ok_iff {text : String} {ts : List Token} :
    scan text keepCase = .ok ts ↔ ∃ q, Scans keepCase 0 text.toList ts q [] :=
  ⟨fun h => scans_of_scanFrom h (Nat.le_refl _),
    fun ⟨_, h⟩ => scanFrom_of_scans h rfl (Nat.le_refl _)⟩

end Screening.Token
