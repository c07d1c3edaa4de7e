/-
  Prefixes and runs of digits are pieces of a text: with what follows them they make it up again.
-/
import SwiftABI.Text.Basic

namespace SwiftABI.Text

theorem dropPrefix?_append (p t : Text) : dropPrefix? p (p ++ t) = some t := by
  induction p with
  | nil => rfl
  | cons c p ih => simpa [dropPrefix?] using ih

/-- What is left after a prefix is the rest of the text. -/
theorem eq_append_of_dropPrefix? {p t rest : Text} (h : dropPrefix? p t = some rest) :
    t = p ++ rest := by
  induction p generalizing t with
  | nil =>
    cases h
    rfl
  | cons c p ih =>
    cases t with
    | nil => cases h
    | cons d t =>
      rw [dropPrefix?] at h
      split at h
      · rename_i heq
        rw [heq, List.cons_append, ← ih h]
      · cases h

/-- A prefix that does not hold a character does not reach as far as that. -/
theorem dropPrefix?_append_cons {p : Text} {ch : CodePoint} (hp : ch ∉ p) (t rest : Text) :
    dropPrefix? p (t ++ ch :: rest) = (dropPrefix? p t).map (· ++ ch :: rest) := by
  rcases ht : dropPrefix? p t with _ | after
  · rcases hlonger : dropPrefix? p (t ++ ch :: rest) with _ | after
    · rfl
    -- A prefix of the longer text alone would end behind the character.
    rcases List.append_eq_append_iff.mp
      (eq_append_of_dropPrefix? hlonger) with ⟨w, rfl, hw⟩ | ⟨w, rfl, -⟩
    · rcases w with _ | ⟨ch', w⟩
      · have hwhole := dropPrefix?_append (t ++ []) []
        rw [List.append_nil, List.append_nil] at hwhole
        rw [List.append_nil, hwhole] at ht
        cases ht
      · obtain ⟨rfl, -⟩ := List.cons_eq_cons.mp hw
        exact absurd (List.mem_append_right t List.mem_cons_self) hp
    · rw [dropPrefix?_append] at ht
      cases ht
  · rw [eq_append_of_dropPrefix? ht, List.append_assoc, dropPrefix?_append]
    rfl

/-- A text is split where characters of one sort end. -/
theorem split_append {p : CodePoint → Bool} {a b : Text} (ha : ∀ c ∈ a, p c = true)
    (hb : ∀ c, b.head? = some c → p c = false) :
    (a ++ b).takeWhile p = a ∧ (a ++ b).dropWhile p = b := by
  rw [List.takeWhile_append_of_pos ha, List.dropWhile_append_of_pos ha]
  cases b with
  | nil => simp
  | cons c b =>
    have hc : p c = false := hb c rfl
    simp [hc]

/-- There is one place at most where characters of one sort end. -/
theorem append_inj_of_split {p : CodePoint → Bool} {a b a' b' : Text} (ha : ∀ c ∈ a, p c = true)
    (hb : ∀ c, b.head? = some c → p c = false) (ha' : ∀ c ∈ a', p c = true)
    (hb' : ∀ c, b'.head? = some c → p c = false) (h : a ++ b = a' ++ b') : a = a' ∧ b = b' := by
  obtain ⟨htake, hdrop⟩ := split_append ha hb
  obtain ⟨htake', hdrop'⟩ := split_append ha' hb'
  rw [h] at htake hdrop
  exact ⟨htake.symm.trans htake', hdrop.symm.trans hdrop'⟩

/-- A text is put together from the digits in front and the rest, which does not begin with one. -/
theorem spanDigits_spec (t : Text) :
    t = (spanDigits t).1 ++ (spanDigits t).2 ∧ (∀ d ∈ (spanDigits t).1, isDigit d = true) ∧
      ∀ c, (spanDigits t).2.head? = some c → isDigit c = false := by
  induction t with
  | nil => exact ⟨rfl, nofun, nofun⟩
  | cons c t ih =>
    obtain ⟨hsplit, hdigits, hrest⟩ := ih
    by_cases hc : isDigit c = true
    · rw [spanDigits, if_pos hc]
      exact ⟨congrArg (c :: ·) hsplit, List.forall_mem_cons.mpr ⟨hc, hdigits⟩, hrest⟩
    · rw [spanDigits, if_neg hc]
      refine ⟨rfl, nofun, fun d hd => ?_⟩
      cases hd
      exact Bool.eq_false_iff.mpr hc

theorem length_spanDigits (t : Text) :
    (spanDigits t).1.length + (spanDigits t).2.length = t.length := by
  rw [← List.length_append, ← (spanDigits_spec t).1]

end SwiftABI.Text
