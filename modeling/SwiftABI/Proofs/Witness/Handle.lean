/-
  Functions keep their handles.

  A table of functions `Grows` if every handle that it has given stays. Registering a function gives
  it a handle and lets the table grow (`FunctionTable.handle?_register`,
  `FunctionTable.grows_register`). If it is `Sound`, its handles count up from the first one. Then a
  function with a handle is the only one with it, and is found by it
  (`FunctionTable.Sound.function?_iff_handle?`).
-/
import SwiftABI.Proofs.Witness.Run

namespace SwiftABI

namespace FunctionTable

/-- Every function with a handle has the same one later. -/
def Grows (before after : FunctionTable) : Prop :=
  ∀ f handle, before.handle? f = some handle → after.handle? f = some handle

theorem Grows.refl (t : FunctionTable) : t.Grows t := fun _ _ h => h

theorem Grows.trans {t t' t'' : FunctionTable} (h : t.Grows t') (h' : t'.Grows t'') : t.Grows t'' :=
  fun f handle hf => h' f handle (h f handle hf)

/-- A function has the handle that it was given. -/
theorem handle?_register (t : FunctionTable) (f : FunctionRef) :
    (t.register f).2.handle? f = some (t.register f).1 := by
  unfold register
  split
  · assumption
  · simp [handle?]

/-- Registering one function does not change the handles of the others. -/
theorem handle?_register_of_ne (t : FunctionTable) {f g : FunctionRef} (h : f ≠ g) :
    (t.register f).2.handle? g = t.handle? g := by
  unfold register
  split
  · rfl
  · simp [handle?, h]

theorem grows_register (t : FunctionTable) (f : FunctionRef) : t.Grows (t.register f).2 := by
  intro g handle hg
  by_cases hfg : f = g
  · subst hfg
    unfold register
    rw [hg]
    exact hg
  · rwa [t.handle?_register_of_ne hfg]

/-- Different functions, the latest first, with handles that count up from the first handle. -/
inductive Numbered (stride : Int) : List (FunctionRef × Int) → Prop where
  | nil : Numbered stride []
  | cons {f : FunctionRef} {entries : List (FunctionRef × Int)} (hnew : ∀ e ∈ entries, e.1 ≠ f)
    (h : Numbered stride entries) :
      Numbered stride ((f, firstHandle + entries.length * stride) :: entries)

namespace Numbered

variable {stride : Int} {entries : List (FunctionRef × Int)} {f : FunctionRef} {handle : Int}

/-- The next handle is behind all that have been given. -/
theorem bounds (hstride : 0 < stride) (h : Numbered stride entries) :
    ∀ e ∈ entries, firstHandle ≤ e.2 ∧ e.2 < firstHandle + entries.length * stride := by
  induction h with
  | nil => simp
  | @cons f entries hnew h ih =>
    have hcount : 0 ≤ (entries.length : Int) * stride :=
      Int.mul_nonneg (Int.natCast_nonneg _) (Int.le_of_lt hstride)
    intro e he
    rw [List.length_cons, Int.natCast_add, Int.add_mul, Int.natCast_one, Int.one_mul]
    rcases List.mem_cons.mp he with rfl | he
    · dsimp only
      omega
    · obtain ⟨hfirst, hlast⟩ := ih e he
      omega

theorem find?_function_iff (h : Numbered stride entries) :
    (entries.find? fun e => e.1 = f).map Prod.snd = some handle ↔ (f, handle) ∈ entries := by
  induction h with
  | nil => simp
  | @cons g entries hnew h ih =>
    by_cases hg : g = f
    · subst hg
      have hnot : (g, handle) ∉ entries := fun hmem => hnew _ hmem rfl
      simp [hnot, eq_comm]
    · have hne : f ≠ g := fun h => hg h.symm
      simpa [List.find?_cons, hg, hne] using ih

theorem find?_handle_iff (hstride : 0 < stride) (h : Numbered stride entries) :
    (entries.find? fun e => e.2 = handle).map Prod.fst = some f ↔ (f, handle) ∈ entries := by
  induction h with
  | nil => simp
  | @cons g entries hnew h ih =>
    by_cases hg : firstHandle + entries.length * stride = handle
    · have hnot : (f, handle) ∉ entries := by
        intro hmem
        have hbehind := (h.bounds hstride _ hmem).2
        dsimp only at hbehind
        omega
      simp [hg, hnot, eq_comm]
    · have hne : handle ≠ firstHandle + entries.length * stride := fun h => hg h.symm
      simpa [List.find?_cons, hg, hne] using ih

/-- No two functions have the same handle, so that there are as many handles as functions. -/
theorem length_eraseDups (hstride : 0 < stride) (h : Numbered stride entries) :
    (entries.map Prod.snd).eraseDups.length = entries.length := by
  induction h with
  | nil => rfl
  | @cons f entries hnew h ih =>
    have hothers : (entries.map Prod.snd).filter
      (fun other => !other == firstHandle + entries.length * stride) = entries.map Prod.snd := by
      rw [List.filter_eq_self]
      intro other hother
      obtain ⟨e, he, rfl⟩ := List.mem_map.mp hother
      have hbehind := (h.bounds hstride e he).2
      simp only [Bool.not_eq_true', beq_eq_false_iff_ne]
      omega
    rw [List.map_cons, List.eraseDups_cons, hothers, List.length_cons, List.length_cons, ih]

end Numbered

/-- Functions and handles belong to each other one by one. -/
structure Sound (t : FunctionTable) : Prop where
  stride : 0 < t.stride
  numbered : Numbered t.stride t.handles

namespace Sound

variable {t : FunctionTable} {f g : FunctionRef} {handle : Int}

theorem handle?_iff (h : t.Sound) : t.handle? f = some handle ↔ (f, handle) ∈ t.handles :=
  h.numbered.find?_function_iff

/-- A function is found by its handle, and no other one is. -/
theorem function?_iff_handle? (h : t.Sound) :
    t.function? handle = some f ↔ t.handle? f = some handle :=
  (h.numbered.find?_handle_iff h.stride).trans h.handle?_iff.symm

theorem nextHandle_eq (h : t.Sound) : t.nextHandle = firstHandle + t.handles.length * t.stride := by
  unfold nextHandle length
  rw [h.numbered.length_eraseDups h.stride]

/-- Functions that are registered get handles in a row. -/
theorem register (h : t.Sound) (f : FunctionRef) : (t.register f).2.Sound := by
  unfold FunctionTable.register
  split
  · exact h
  · next hnone =>
    refine ⟨h.stride, ?_⟩
    dsimp only
    -- The next handle comes from the number of handles, which is that of functions as no handle is
    -- there twice.
    rw [h.nextHandle_eq]
    refine .cons (fun e he hef => ?_) h.numbered
    subst hef
    rw [h.handle?_iff.mpr he] at hnone
    cases hnone

end Sound

end FunctionTable

/-- Registering a function changes nothing but the table of functions and the log. -/
theorem Run.outcome_register (f : FunctionRef) (s : Session) :
    ∃ notes, (register f).outcome s =
      (.ok (s.functions.register f).1,
        { s with functions := (s.functions.register f).2, notes }) := by
  show ∃ notes, (if (s.functions.handle? f).isNone then _ else _ : Run Int).outcome _ = _
  split
  · exact ⟨_, rfl⟩
  · exact ⟨_, rfl⟩

end SwiftABI
