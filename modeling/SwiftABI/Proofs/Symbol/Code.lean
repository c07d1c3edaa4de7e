/-
  The letters of a symbol stand for what they were written for.

  Tables of letters are read in both directions (`Code.decode?_of_encode?`), and so are the types of
  the standard library by their letters (`Standard.type?_of_code?`).
-/
import SwiftABI.Proofs.Text.Numeral
import SwiftABI.Symbol.Code
import SwiftABI.Symbol.Standard

namespace SwiftABI

/-- An element is found by what tells the elements apart. -/
theorem find?_eq_some_of_nodup {α β : Type} [DecidableEq β] {f : α → β} {l : List α} {a : α}
    (hl : (l.map f).Nodup) (ha : a ∈ l) : l.find? (fun b => f b = f a) = some a := by
  induction l with
  | nil => cases ha
  | cons b l ih =>
    rw [List.map_cons, List.nodup_cons] at hl
    rcases List.mem_cons.mp ha with rfl | ha'
    · simp
    · have hne : f b ≠ f a := fun h => hl.1 (h ▸ List.mem_map_of_mem ha')
      simp [hne, ih hl.2 ha']

namespace Code

/-! ### Tables -/

variable {α β : Type} {table : List (α × β)} {code : α} {value : β}

theorem mem_of_encode? [DecidableEq β] (h : encode? table value = some code) :
    (code, value) ∈ table := by
  obtain ⟨entry, hfind, rfl⟩ := Option.map_eq_some_iff.mp h
  have hvalue : entry.2 = value := by simpa using List.find?_some hfind
  rw [← hvalue]
  exact List.mem_of_find?_eq_some hfind

/-- What a code stands for is in the table. -/
theorem mem_of_decode? [DecidableEq α] (h : decode? table code = some value) :
    (code, value) ∈ table := by
  obtain ⟨entry, hfind, rfl⟩ := Option.map_eq_some_iff.mp h
  have hcode : entry.1 = code := by simpa using List.find?_some hfind
  rw [← hcode]
  exact List.mem_of_find?_eq_some hfind

theorem decode?_of_mem [DecidableEq α] (hcodes : (table.map Prod.fst).Nodup)
    (h : (code, value) ∈ table) :
    decode? table code = some value := by
  unfold decode?
  rw [find?_eq_some_of_nodup hcodes h]
  rfl

theorem encode?_of_mem [DecidableEq β] (hvalues : (table.map Prod.snd).Nodup)
    (h : (code, value) ∈ table) : encode? table value = some code := by
  unfold encode?
  rw [find?_eq_some_of_nodup hvalues h]
  rfl

/-- The code of a value stands for it. -/
theorem decode?_of_encode? [DecidableEq α] [DecidableEq β] (hcodes : (table.map Prod.fst).Nodup)
    (h : encode? table value = some code) :
    decode? table code = some value := decode?_of_mem hcodes (mem_of_encode? h)

/-! ### Numbers -/

/-- The index of what is not the first begins with a numeral. -/
theorem index_succ (n : Nat) : index (n + 1 : Nat) = Text.digits n ++ (['_'] : Text) := by
  have hne : ((n + 1 : Nat) : Int) ≠ 0 := by omega
  have hsub : ((n + 1 : Nat) : Int) - 1 = Int.ofNat n := by simp
  rw [index, if_neg hne, hsub]
  rfl

/-- An index begins with its mark or with a digit. -/
theorem index_eq_cons (n : Nat) :
    ∃ ch w, index n = ch :: w ∧ (ch = '_' ∨ Text.isDigit ch = true) := by
  cases n with
  | zero => exact ⟨'_', [], rfl, .inl rfl⟩
  | succ n =>
    obtain ⟨d, ds, hds⟩ := List.exists_cons_of_ne_nil (Text.digits_ne_nil n)
    have hd : Text.isDigit d = true :=
      Text.isDigit_of_mem_digits (n := n) (by rw [hds]; exact List.mem_cons_self)
    rw [index_succ, hds]
    exact ⟨d, ds ++ (['_'] : Text), rfl, .inr hd⟩

/-- No letter begins an index. -/
theorem ne_of_begins_index {ch letter : CodePoint} (h : ch = '_' ∨ Text.isDigit ch = true)
    (hletter : letter ≠ '_' ∧ Text.isDigit letter = false) : ch ≠ letter := by
  rintro rfl
  rcases h with h | h
  · exact hletter.1 h
  · rw [hletter.2] at h
    cases h

end Code

/-! ### The standard library -/

namespace Standard

/-- The letters of the standard library are neither digits nor the letters with a meaning of their
own. -/
theorem letter_spec {n : Node} {letter : CodePoint} (h : Standard.type? letter = some n) :
    letter ∉ (['o', 'C', 'g'] : Text) ∧ Text.isDigit letter = false := by
  unfold Standard.type? at h
  rcases hfind : Standard.catalogue.find? fun e => e.code = letter with _ | e
  · rw [hfind] at h
    cases h
  · have hcode : e.code = letter := by simpa using List.find?_some hfind
    have hall : ∀ e ∈ Standard.catalogue,
        e.code ≠ 'o' ∧ e.code ≠ 'C' ∧ e.code ≠ 'g' ∧ Text.isDigit e.code = false := by decide
    obtain ⟨ho, hC, hg, hdigit⟩ := hall e (List.mem_of_find?_eq_some hfind)
    rw [hcode] at ho hC hg hdigit
    simp [ho, hC, hg, hdigit]

private theorem nodup_codes : (catalogue.map Entry.code).Nodup := by decide

/-- The letter of a type stands for it. -/
theorem type?_of_code? {n : Node} {letter : CodePoint} (h : code? n = some letter) :
    type? letter = some n.unwrapped.typeOf := by
  unfold code? at h
  split at h
  · rename_i k m name hn
    split at h
    · rename_i hm
      obtain ⟨e, hfind, rfl⟩ := Option.map_eq_some_iff.mp h
      have he := List.find?_some hfind
      simp only [Bool.and_eq_true, decide_eq_true_eq] at he
      obtain ⟨rfl, rfl⟩ := he
      unfold type?
      rw [find?_eq_some_of_nodup nodup_codes (List.mem_of_find?_eq_some hfind), hn, hm]
      rfl
    · cases h
  · cases h

end Standard

end SwiftABI
