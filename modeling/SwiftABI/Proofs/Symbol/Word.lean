/-
  The words of a piece of an identifier.

  An identifier may be cut where a word begins or ends, and its words are the ones of the pieces. So
  the reader, who gets to see only the pieces that are written out, finds the same words in them as
  the writer does in the whole identifier.
-/
import SwiftABI.Symbol.Word

namespace SwiftABI.Word

/-! ### Cutting an identifier -/

/-- The word that is open behind a text, if `current` is open before it. -/
def openAfter (current : Text) : Text → Text
  | [] => current
  | c :: cs =>
    match current.getLast? with
    | none => openAfter (if isStart c then [c] else []) cs
    | some prev =>
      if isEnd c prev then openAfter (if isStart c then [c] else []) cs
      else openAfter (current ++ [c]) cs

/-- Does a word that is open end before a text? -/
def EndsBefore (current rest : Text) : Prop :=
  ∀ prev, current.getLast? = some prev → ∀ c, rest.head? = some c → isEnd c prev = true

theorem endsBefore_nil (rest : Text) : EndsBefore [] rest := nofun

variable {current a b : Text} {c prev : CodePoint}

theorem splitFrom_cons_nil (pos : Nat) (c : CodePoint) (cs : Text) :
    splitFrom pos [] (c :: cs) = splitFrom (pos + 1) (if isStart c then [c] else []) cs := rfl

theorem splitFrom_cons_end (h : current.getLast? = some prev) (hend : isEnd c prev = true)
    (pos : Nat) (cs : Text) : splitFrom pos current (c :: cs) = (pos - current.length, current) ::
      splitFrom (pos + 1) (if isStart c then [c] else []) cs := by
  rw [splitFrom, h]
  exact if_pos hend

theorem splitFrom_cons_more (h : current.getLast? = some prev) (hend : isEnd c prev = false)
    (pos : Nat)
    (cs : Text) : splitFrom pos current (c :: cs) = splitFrom (pos + 1) (current ++ [c]) cs := by
  rw [splitFrom, h]
  exact if_neg (by rw [hend]; decide)

theorem openAfter_cons_end (h : current.getLast? = some prev) (hend : isEnd c prev = true)
    (cs : Text) :
    openAfter current (c :: cs) = openAfter [] (c :: cs) := by
  rw [openAfter, h]
  exact if_pos hend

theorem openAfter_cons_more (h : current.getLast? = some prev) (hend : isEnd c prev = false)
    (cs : Text) : openAfter current (c :: cs) = openAfter (current ++ [c]) cs := by
  rw [openAfter, h]
  exact if_neg (by rw [hend]; decide)

/-- A word that is open is the last one, if it ends here. -/
private theorem splitFrom_endsBefore (h : EndsBefore current b) (pos : Nat) :
    splitFrom pos current b = splitFrom pos current [] ++ splitFrom pos [] b := by
  rcases hlast : current.getLast? with _ | prev
  · rw [List.getLast?_eq_none_iff.mp hlast]
    rfl
  · have hne : current ≠ [] := by
      rintro rfl
      cases hlast
    have hempty : current.isEmpty = false := List.isEmpty_eq_false_iff.mpr hne
    have hnil : splitFrom pos current [] = [(pos - current.length, current)] := by
      rw [splitFrom, hempty]
      rfl
    rw [hnil]
    cases b with
    | nil => exact hnil
    | cons c cs => exact splitFrom_cons_end hlast (h prev hlast c rfl) pos cs

/-- Where a word ends, an identifier may be cut. -/
theorem splitFrom_append (pos : Nat) (h : EndsBefore (openAfter current a) b) :
    splitFrom pos current (a ++ b) = splitFrom pos current a ++ splitFrom (pos + a.length)
      [] b := by
  induction a generalizing pos current with
  | nil => exact splitFrom_endsBefore h pos
  | cons c a ih =>
    have hlength : pos + (c :: a).length = pos + 1 + a.length := by
      rw [List.length_cons]
      omega
    rw [hlength, List.cons_append]
    rcases hlast : current.getLast? with _ | prev
    · rw [List.getLast?_eq_none_iff.mp hlast] at h ⊢
      exact ih (pos + 1) h
    · rcases hend : isEnd c prev with _ | _
      · rw [splitFrom_cons_more hlast hend, splitFrom_cons_more hlast hend]
        rw [openAfter_cons_more hlast hend] at h
        exact ih (pos + 1) h
      · rw [splitFrom_cons_end hlast hend, splitFrom_cons_end hlast hend, List.cons_append]
        rw [openAfter_cons_end hlast hend] at h
        exact congrArg (_ :: ·) (ih (pos + 1) h)

theorem openAfter_append (current a b : Text) :
    openAfter current (a ++ b) = openAfter (openAfter current a) b := by
  induction a generalizing current with
  | nil => rfl
  | cons c a ih =>
    rw [List.cons_append, openAfter, openAfter]
    split
    · exact ih _
    · split
      · exact ih _
      · exact ih _

/-- Behind its end, an open word does not matter. -/
theorem openAfter_endsBefore (h : EndsBefore current b) (hne : b ≠ []) :
    openAfter current b = openAfter [] b := by
  obtain ⟨c, cs, rfl⟩ := List.exists_cons_of_ne_nil hne
  rcases hlast : current.getLast? with _ | prev
  · rw [List.getLast?_eq_none_iff.mp hlast]
  · exact openAfter_cons_end hlast (h prev hlast c rfl) cs

/-! ### The words of a text -/

/-- The words of a text, without their positions. -/
def words (t : Text) : List Text := (split t).map Prod.snd

/-- The words do not depend on where the text begins. -/
theorem map_splitFrom (pos pos' : Nat) (current t : Text) :
    (splitFrom pos current t).map Prod.snd = (splitFrom pos' current t).map Prod.snd := by
  induction t generalizing pos pos' current with
  | nil =>
    rw [splitFrom, splitFrom]
    split <;> rfl
  | cons c t ih =>
    rw [splitFrom, splitFrom]
    split
    · exact ih _ _ _
    · split
      · exact congrArg (_ :: ·) (ih _ _ _)
      · exact ih _ _ _

theorem words_append (h : EndsBefore (openAfter [] a) b) : words (a ++ b) = words a ++ words b := by
  unfold words split
  rw [splitFrom_append 0 h, List.map_append, map_splitFrom (0 + a.length) 0]

/-- Remembering the words of a text that is cut. -/
theorem rememberAll_append (limit : Int) (ws : List Text) (h : EndsBefore (openAfter [] a) b) :
    rememberAll limit ws (a ++ b) = rememberAll limit (rememberAll limit ws a) b := by
  show (words (a ++ b)).foldl _ _ = (words b).foldl _ ((words a).foldl _ _)
  rw [words_append h, List.foldl_append]

/-! ### The first word -/

/-- An open word goes on up to its end. -/
private theorem splitFrom_open (hne : current ≠ []) (t : Text) :
    ∃ a b, t = a ++ b ∧ openAfter current a = current ++ a ∧ EndsBefore (current ++ a) b ∧
      (∀ pos, splitFrom pos current a = [(pos - current.length, current ++ a)]) := by
  -- By induction on the text, which goes to the open word as long as that does not end.
  induction t generalizing current with
  | nil =>
    refine ⟨[], [], rfl, (List.append_nil _).symm, nofun, fun pos => ?_⟩
    rw [List.append_nil, splitFrom, List.isEmpty_eq_false_iff.mpr hne]
    rfl
  | cons c t ih =>
    obtain ⟨prev, hlast⟩ : ∃ prev, current.getLast? = some prev :=
      ⟨_, List.getLast?_eq_some_getLast hne⟩
    rcases hend : isEnd c prev with _ | _
    · obtain ⟨a, b, rfl, hopen, hends, hsplit⟩ := ih (show current ++ [c] ≠ [] by simp)
      rw [List.append_assoc] at hopen hends
      refine ⟨c :: a, b, rfl, ?_, hends, fun pos => ?_⟩
      · rw [openAfter_cons_more hlast hend]
        exact hopen
      · rw [splitFrom_cons_more hlast hend, hsplit]
        simp only [List.length_append, List.length_singleton, List.append_assoc, List.cons_append,
          List.nil_append, Nat.add_sub_add_right]
    · refine ⟨[], c :: t, rfl, (List.append_nil _).symm, ?_, fun pos => ?_⟩
      · rw [List.append_nil]
        intro p hp d hd
        rw [hlast] at hp
        cases hp
        cases hd
        exact hend
      · rw [List.append_nil, splitFrom, List.isEmpty_eq_false_iff.mpr hne]
        rfl

/-- The text begins with a gap, behind which its first word stands. -/
structure FirstWord (t gap word rest : Text) : Prop where
  eq : t = gap ++ (word ++ rest)
  openAfter_gap : openAfter [] gap = []
  openAfter_word : openAfter [] word = word
  endsBefore : EndsBefore word rest
  ne_nil : word ≠ []
  splitFrom_gap : ∀ pos, splitFrom pos [] gap = []
  splitFrom_word : ∀ pos, splitFrom pos [] word = [(pos, word)]

/-- A text has no words, or it has a first one. -/
theorem splitFrom_cases (t : Text) :
    (∀ pos, splitFrom pos [] t = []) ∨ ∃ gap word rest, FirstWord t gap word rest := by
  induction t with
  | nil => exact .inl fun _ => rfl
  | cons c t ih =>
    -- What starts no word is one more character of the gap.
    rcases hstart : isStart c with _ | _
    · have hsplit : ∀ pos cs, splitFrom pos [] (c :: cs) = splitFrom (pos + 1) [] cs := by
        intro pos cs
        rw [splitFrom_cons_nil, hstart]
        rfl
      rcases ih with hnone | ⟨gap, word, rest, rfl, hgap, hword, hends, hne, hgaps, hwords⟩
      · exact .inl fun pos => (hsplit pos t).trans (hnone _)
      · refine .inr ⟨c :: gap, word, rest, rfl, ?_, hword, hends, hne, fun pos => ?_, hwords⟩
        · show openAfter (if isStart c then [c] else []) gap = _
          rw [hstart]
          exact hgap
        · exact (hsplit pos gap).trans (hgaps _)
    · obtain ⟨a, b, rfl, hopen, hends, hsplit⟩ := splitFrom_open (List.cons_ne_nil c []) t
      refine .inr
        ⟨[], c :: a, b, rfl, rfl, ?_, hends, List.cons_ne_nil _ _, fun _ => rfl, fun pos => ?_⟩
      · show openAfter (if isStart c then [c] else []) a = _
        rw [hstart]
        exact hopen
      · rw [splitFrom_cons_nil, hstart]
        exact hsplit (pos + 1)

namespace FirstWord

variable {t gap word rest pending : Text} {limit : Int} {ws : List Text}

theorem splitFrom_eq (h : FirstWord t gap word rest) (pos : Nat) :
    splitFrom pos [] t = (pos + gap.length, word) :: splitFrom (pos + gap.length + word.length)
      [] rest := by
  have hends : EndsBefore (openAfter [] word) rest := by
    rw [h.openAfter_word]
    exact h.endsBefore
  have hgap : EndsBefore (openAfter [] gap) (word ++ rest) := by
    rw [h.openAfter_gap]
    exact endsBefore_nil _
  rw [h.eq, splitFrom_append pos hgap, splitFrom_append _ hends, h.splitFrom_gap, h.splitFrom_word]
  rfl

/-- What ends before a text ends before its gap, too. -/
theorem endsBefore_gap (h : FirstWord t gap word rest) {current : Text}
    (hends : EndsBefore current t) :
    EndsBefore current gap := by
  intro prev hprev c hc
  refine hends prev hprev c ?_
  rw [h.eq, List.head?_append, hc]
  rfl

theorem endsBefore_word (h : FirstWord t gap word rest) {current : Text}
    (hends : EndsBefore current t) :
    EndsBefore current (gap ++ word) := by
  intro prev hprev c hc
  refine hends prev hprev c ?_
  rw [h.eq, ← List.append_assoc, List.head?_append, hc]
  rfl

/-- The gap has nothing to remember. -/
theorem rememberAll_gap (h : FirstWord t gap word rest)
    (hends : EndsBefore (openAfter [] pending) t) :
    rememberAll limit ws (pending ++ gap) = rememberAll limit ws pending := by
  rw [rememberAll_append limit ws (h.endsBefore_gap hends)]
  unfold rememberAll split
  rw [h.splitFrom_gap]
  rfl

theorem rememberAll_word (h : FirstWord t gap word rest)
    (hends : EndsBefore (openAfter [] pending) t) :
    rememberAll limit ws (pending ++ (gap ++ word)) = remember limit
      (rememberAll limit ws pending) word := by
  have hgap : EndsBefore (openAfter [] gap) word := by
    rw [h.openAfter_gap]
    exact endsBefore_nil _
  rw [rememberAll_append limit ws (h.endsBefore_word hends), rememberAll_append limit _ hgap]
  unfold rememberAll split
  rw [h.splitFrom_gap, h.splitFrom_word]
  rfl

/-- Behind the first word, the identifier may be cut again. -/
theorem endsBefore_rest (h : FirstWord t gap word rest)
    (hends : EndsBefore (openAfter [] pending) t) :
    EndsBefore (openAfter [] (pending ++ (gap ++ word))) rest := by
  have hne : gap ++ word ≠ [] := by
    intro hnil
    exact h.ne_nil (List.append_eq_nil_iff.mp hnil).2
  rw [openAfter_append, openAfter_endsBefore (h.endsBefore_word hends) hne, openAfter_append,
    h.openAfter_gap, h.openAfter_word]
  exact h.endsBefore

end FirstWord

/-- A text without words has nothing to remember. -/
theorem rememberAll_of_splitFrom_nil {rest pending : Text} {limit : Int} {ws : List Text}
    (h : ∀ pos, splitFrom pos [] rest = []) (hends : EndsBefore (openAfter [] pending) rest) :
    rememberAll limit ws (pending ++ rest) = rememberAll limit ws pending := by
  rw [rememberAll_append limit ws hends]
  unfold rememberAll split
  rw [h]
  rfl

/-- There is never more to refer to than the limit allows. -/
theorem length_remember {limit : Int} {ws : List Text} (word : Text)
    (h : (ws.length : Int) ≤ limit) :
    ((remember limit ws word).length : Int) ≤ limit := by
  unfold remember
  split
  · rw [List.length_append, List.length_singleton]
    omega
  · exact h

end SwiftABI.Word
