/-
  What reading a text can lead to.

  Each step of the reader keeps the machine sound and reads at least one character
  (`Reading.consumes_step`), so that a run keeps the machine sound and ends with the text used up
  (`Machine.steps_spec`). Reading a symbol or the bare name of a type then ends with a tree that
  obeys the grammar (`readSymbol_spec`, `readType_spec`), or as it is documented to fail, unless the
  number of an entry that is not in the table is too long to be shown (`endsAsDocumented_demangle`).
-/
import SwiftABI.Proofs.Symbol.Soundness.Entity

namespace SwiftABI

/-! ### Using up the text -/

namespace Reading

/-- The steps read at least one character. -/
def Consumes {α : Type} (x : Reading α) (m : Machine) : Prop :=
  ∀ a m', x m = .ok (a, m') → m'.rest.length < m.rest.length

variable {α β : Type} {cfg : Config} {total : Nat} {m : Machine}

/-- Later steps do not go back. -/
theorem Consumes.bind {x : Reading α} {f : α → Reading β} {p : α → Prop} (hm : m.Sound cfg total)
    (h : Consumes x m) (hx : Preserves cfg x p)
    (hf : ∀ a, p a → Preserves cfg (f a) fun _ => True) :
    Consumes (x >>= f) m := by
  intro b m'' hbind
  change (x m >>= fun r => f r.1 r.2 : Except Malformed (β × Machine)) = .ok (b, m'') at hbind
  have hresult := hx total m hm
  rcases hout : x m with e | ⟨a, m'⟩ <;> rw [hout] at hbind hresult
  · cases hbind
  · change f a m' = .ok (b, m'') at hbind
    have hle := hf a hresult.1 total m' hresult.2.1
    rw [hbind] at hle
    exact Nat.lt_of_le_of_lt hle.2.2 (h a m' hout)

theorem consumes_advance (h : m.rest ≠ []) : Consumes (advance 1) m := by
  rintro _ _ ⟨⟩
  have hpos := List.length_pos_iff.mpr h
  show (m.rest.drop 1).length < m.rest.length
  rw [List.length_drop]
  omega

/-- A numeral has at least one digit. -/
theorem natural?_of_digit {c : CodePoint} {cs : Text} (hrest : m.rest = c :: cs)
    (hc : Text.isDigit c = true) :
    ∃ n m', natural? m = .ok (some n, m') ∧ m'.rest.length < m.rest.length ∧
      ∀ {cfg : Config} {total : Nat}, m.Sound cfg total → m'.Sound cfg total := by
  have hds : (Text.spanDigits m.rest).1 = c :: (Text.spanDigits cs).1 := by
    rw [hrest, Text.spanDigits, if_pos hc]
  have hlength := Text.length_spanDigits m.rest
  have hnatural : natural? m = .ok (some (Text.number (Text.spanDigits m.rest).1),
      { m with
        offset := m.offset + (Text.spanDigits m.rest).1.length
        rest := (Text.spanDigits m.rest).2 }) := by
    show Except.ok (if (Text.spanDigits m.rest).1.isEmpty then _ else _, _) = _
    rw [hds]
    rfl
  refine ⟨_, _, hnatural, ?_, fun {cfg total} hm => ?_⟩
  · show (Text.spanDigits m.rest).2.length < m.rest.length
    rw [hds, List.length_cons] at hlength
    omega
  · have hresult := Preserves.natural? total m hm
    rw [hnatural] at hresult
    exact hresult.2.1

/-- A piece that is spelled out begins with its length. -/
theorem consumes_piece (hm : m.Sound cfg total) {c : CodePoint} {cs : Text}
    (hrest : m.rest = c :: cs) (hc : Text.isDigit c = true) : Consumes (piece cfg false) m := by
  obtain ⟨n, m', hnatural, hlt, hsound⟩ := natural?_of_digit hrest hc
  let spelled : Reading Text := do
    check (0 < n) .identifierLength
    let text ← take n
    modify fun m => { m with words := Word.rememberAll cfg.maxWords m.words text }
    return text
  have hrun : piece cfg false m = spelled m' := by
    show (natural? m >>= fun r => _ : Except Malformed (Text × Machine)) = _
    rw [hnatural]
    rfl
  have hspelled : Preserves cfg spelled fun _ => True := by
    refine (Preserves.check rfl).bind fun _ _ => (Preserves.take n).bind fun text _ => ?_
    exact (Preserves.remember fun words => Word.rememberAll cfg.maxWords words text).bind fun _ _ =>
      .pure trivial
  intro text m'' h
  have hle := hspelled total m' (hsound hm)
  rw [← hrun, h] at hle
  exact Nat.lt_of_le_of_lt hle.2.2 hlt

private theorem identifierText_apply : identifierText cfg m = (match m.rest.head? with
    | some '0' => do
      advance 1
      if ← nextIf '0' then pieces cfg true (m.rest.length + 1) false []
      else pieces cfg false (m.rest.length + 1) true []
    | some c => do
      check (Text.isDigit c) .expectedIdentifier
      pieces cfg false (m.rest.length + 1) false []
    | none => fail .expectedIdentifier : Reading Text) m := rfl

theorem identifierText_of_end (hhead : m.rest.head? = none) :
    identifierText cfg m = (fail .expectedIdentifier : Reading Text) m := by
  rw [identifierText_apply, hhead]

/-- An identifier begins with a zero or with the length of its only piece. -/
theorem identifierText_of_head {c : CodePoint} (hhead : m.rest.head? = some c) :
    identifierText cfg m = if c = '0' then
        (do
          advance 1
          if ← nextIf '0' then pieces cfg true (m.rest.length + 1) false []
          else pieces cfg false (m.rest.length + 1) true [] : Reading Text) m
      else (do
        check (Text.isDigit c) .expectedIdentifier
        pieces cfg false (m.rest.length + 1) false [] : Reading Text) m := by
  rw [identifierText_apply, hhead]
  by_cases hzero : c = '0'
  · rw [if_pos hzero, hzero]
    rfl
  · rw [if_neg hzero]
    simp

theorem pieces_of_head (fuel : Nat) {c : CodePoint} (hhead : m.rest.head? = some c)
    (hzero : c ≠ '0') :
    pieces cfg false (fuel + 1) false
      [] m = (piece cfg false >>= fun text => pure ([] ++ text)) m := by
  have hnext : nextIf '0' m = .ok (false, m) := by
    show (if m.rest.head? = some '0' then _ else _ : Reading Bool) m = _
    rw [hhead, if_neg (by simpa using hzero)]
    rfl
  rw [pieces]
  show (nextIf '0' m >>= fun r => _ : Except Malformed (Text × Machine)) = _
  rw [hnext]
  rfl

theorem consumes_identifierText (hm : m.Sound cfg total) {c : CodePoint} {cs : Text}
    (hrest : m.rest = c :: cs) (hc : Text.isDigit c = true) : Consumes (identifierText cfg) m := by
  have hhead : m.rest.head? = some c := by
    rw [hrest]
    rfl
  have hne : m.rest ≠ [] := by
    rw [hrest]
    exact List.cons_ne_nil _ _
  unfold Consumes
  rw [identifierText_of_head hhead]
  split
  · refine (consumes_advance hne).bind hm (.advance 1) fun _ _ =>
      (Preserves.nextIf '0').bind fun _ _ => ?_
    split
    · exact .pieces _ _ _ _
    · exact .pieces _ _ _ _
  · rename_i hzero
    rw [hc]
    show ∀ text m', pieces cfg false (m.rest.length + 1) false [] m = _ → _
    rw [pieces_of_head _ hhead hzero]
    exact (consumes_piece hm hrest hc).bind hm (.piece false) fun text _ => .pure trivial

theorem consumes_identifier (hm : m.Sound cfg total) {c : CodePoint} {cs : Text}
    (hrest : m.rest = c :: cs) (hc : Text.isDigit c = true) : Consumes (identifier cfg) m := by
  refine (consumes_identifierText hm hrest hc).bind hm .identifierText fun name _ => ?_
  exact (Preserves.registered name).mono fun _ _ => trivial

private theorem step_apply : step cfg m = (match m.rest.head? with
    | some c => if Text.isDigit c then identifier cfg >>= push else
        advance 1 >>= fun _ => operator cfg c >>= push
    | none => fail .endOfInput : Reading Unit) m := rfl

/-- A step reads an identifier, or the letter of an operator and what belongs to it. -/
theorem step_of_cons {c : CodePoint} {cs : Text} (hrest : m.rest = c :: cs) :
    step cfg m = (if Text.isDigit c then identifier cfg >>= push
      else advance 1 >>= fun _ => operator cfg c >>= push : Reading Unit) m := by
  rw [step_apply, hrest]
  rfl

/-- Pushing a node reads nothing. -/
theorem Consumes.push {x : Reading Node} (h : Consumes x m) : Consumes (x >>= Reading.push) m := by
  intro _ m'' hpush
  change (x m >>= fun r => Reading.push r.1 r.2 : Except Malformed (Unit × Machine)) =
    .ok (_, m'') at hpush
  rcases hx : x m with e | ⟨n, m'⟩ <;> rw [hx] at hpush
  · cases hpush
  · cases hpush
    exact h n m' hx

/-- Every step reads at least one character. -/
theorem consumes_step (hm : m.Sound cfg total) (hne : m.rest ≠ []) : Consumes (step cfg) m := by
  obtain ⟨c, cs, hrest⟩ := List.exists_cons_of_ne_nil hne
  unfold Consumes
  rw [step_of_cons hrest]
  split
  · rename_i hc
    exact (consumes_identifier hm hrest hc).push
  · have hoperator : Consumes (advance 1 >>= fun _ => operator cfg c) m := by
      refine (consumes_advance hne).bind hm (.advance 1) fun _ _ => ?_
      exact (Preserves.operator c).mono fun _ _ => trivial
    have hpushed := hoperator.push
    rwa [bind_assoc] at hpushed

end Reading

/-! ### Runs -/

/-- The outcome has the property, or is a fair complaint. -/
def Ends {α : Type} (total : Nat) (x : Except Malformed α) (p : α → Prop) : Prop :=
  match x with
  | .ok a => p a
  | .error e => e.Fair total

namespace Ends

variable {α β : Type} {total : Nat} {x : Except Malformed α} {p : α → Prop}

theorem ok {a : α} (h : p a) : Ends total (.ok a) p := h

/-- A complaint that is not about the table is fair wherever it is about the text. -/
theorem complaint {c : Complaint} {offset : Nat} (hoffset : offset ≤ total)
    (h : c.isPlain = true) : Ends total (.error ⟨c, offset⟩) p := by
  refine ⟨hoffset, fun u hu => ?_⟩
  change c = _ at hu
  rw [hu] at h
  cases h

theorem bind {f : α → Except Malformed β} {q : β → Prop} (hx : Ends total x p)
    (hf : ∀ a, p a → Ends total (f a) q) : Ends total (x >>= f) q := by
  rcases x with e | a
  · exact hx
  · exact hf a hx

end Ends

/-- Steps that keep a machine sound end with a sound machine, or fairly. -/
theorem Preserves.ends {α : Type} {cfg : Config} {total : Nat} {m : Machine} {x : Reading α}
    {p : α → Prop} (h : Preserves cfg x p) (hm : m.Sound cfg total) :
    Ends total (x m) fun r => p r.1 ∧ r.2.Sound cfg total := by
  have hresult := h total m hm
  rcases hout : x m with e | ⟨a, m'⟩ <;> rw [hout] at hresult
  · exact hresult
  · exact .ok ⟨hresult.1, hresult.2.1⟩

theorem Ends.mono {α : Type} {total : Nat} {x : Except Malformed α} {p q : α → Prop}
    (h : Ends total x p) (hpq : ∀ a, p a → q a) : Ends total x q := by
  rcases x with e | a
  · exact h
  · exact hpq a h

namespace Machine

variable {cfg : Config} {total : Nat} {m : Machine}

/-- The suffix of a symbol. -/
def suffixNode (t : Text) : Node := .mk .suffix (.text ('.' :: t)) []

/-- A machine that a run comes to is sound, or has read the rest of the text as the suffix of a
symbol. -/
inductive Reached (cfg : Config) (total : Nat) : Machine → Prop where
  | sound {m : Machine} (h : m.Sound cfg total) : Reached cfg total m
  | suffixed {m : Machine} (t : Text) (h : m.Sound cfg total) (hrest : m.rest = []) :
    Reached cfg total { m with stack := suffixNode t :: m.stack }

namespace Reached

theorem offset_le (h : m.Reached cfg total) : m.offset ≤ total := by
  cases h with
  | sound h =>
    have hsum := h.offset
    omega
  | suffixed t h hrest =>
    have hsum := h.offset
    dsimp only
    omega

theorem made (h : m.Reached cfg total) : ∀ n ∈ m.stack, n.Made cfg := by
  cases h with
  | sound h => exact h.stack.made
  | suffixed t h hrest =>
    refine List.forall_mem_cons.mpr ⟨⟨.mk (.suffix t) nofun, ?_⟩, h.stack.made⟩
    show Kind.suffix ∈ _
    decide

theorem table (h : m.Reached cfg total) : ∀ n ∈ m.table.nodes, n.Sound cfg := by
  cases h with
  | sound h => exact h.table
  | suffixed t h hrest => exact h.table

/-- Only the end of the text lies behind a suffix. -/
theorem sound_of_ne (h : m.Reached cfg total) (hne : m.rest ≠ []) : m.Sound cfg total := by
  cases h with
  | sound h => exact h
  | suffixed t h hrest => exact absurd hrest hne

end Reached

/-- The suffix is what is left of the text. -/
theorem Sound.pushSuffix (hm : m.Sound cfg total) :
    Ends total ((Reading.suffix >>= Reading.push) m) fun r => r.2.Reached cfg total := by
  have hadvance : Preserves cfg (Reading.advance m.rest.length) fun _ => True := .advance _
  have hrest : m.rest.drop m.rest.length = [] := List.drop_length
  exact .ok (.suffixed m.rest (hadvance.ends hm).2 hrest)

/-- Every step of a sound machine ends with a machine that a run can come to. -/
theorem Sound.step (hm : m.Sound cfg total) :
    Ends total (Reading.step cfg m) fun r => r.2.Reached cfg total := by
  rcases hrest : m.rest with _ | ⟨c, cs⟩
  · have hoffset := (Reached.sound hm).offset_le
    have hstep : Reading.step cfg m = .error ⟨.endOfInput, m.offset⟩ := by
      show (match m.rest.head? with | some c => _ | none => _ : Reading Unit) m = _
      rw [hrest]
      rfl
    rw [hstep]
    exact .complaint hoffset rfl
  · rw [Reading.step_of_cons hrest]
    by_cases hdigit : Text.isDigit c = true
    · rw [if_pos hdigit]
      exact ((Preserves.identifier.bind fun n hn => .push hn).ends hm).mono fun _ h => .sound h.2
    · rw [if_neg hdigit]
      by_cases hsuffix : c = '.'
      · subst hsuffix
        exact ((Preserves.advance 1).ends hm).bind fun r hr => hr.2.pushSuffix
      · have hpush : Preserves cfg (Reading.operator cfg c >>= Reading.push) fun _ => True :=
          .pushOperator hsuffix
        exact (((Preserves.advance 1).bind fun _ _ => hpush).ends hm).mono fun _ h => .sound h.2

/-- A run keeps the machine sound up to a suffix, and uses up the text if it is long enough. -/
theorem steps_spec (fuel : Nat) : ∀ {m : Machine}, m.Reached cfg total → m.rest.length ≤ fuel →
    Ends total (m.steps cfg fuel) fun m' => m'.Reached cfg total ∧ m'.rest = [] := by
  induction fuel with
  | zero => exact fun hm hfuel => ⟨hm, List.length_eq_zero_iff.mp (Nat.le_zero.mp hfuel)⟩
  | succ fuel ih =>
    intro m hm hfuel
    rw [steps]
    by_cases hempty : m.rest = []
    · rw [hempty]
      exact .ok ⟨hm, hempty⟩
    · rw [if_neg (by simpa using hempty)]
      have hsound := hm.sound_of_ne hempty
      have hresult := hsound.step
      rcases hstep : Reading.step cfg m with e | ⟨_, m'⟩ <;> rw [hstep] at hresult
      · exact hresult
      · have hlt := Reading.consumes_step hsound hempty _ _ hstep
        exact ih hresult (by omega)

theorem Sound.run (hm : m.Sound cfg total) :
    Ends total (m.run cfg) fun m' => m'.Reached cfg total ∧ m'.rest = [] :=
  steps_spec m.rest.length (.sound hm) (Nat.le_refl _)

/-- All states that a run goes through are ones that it can come to. -/
theorem reached_of_mem_states (fuel : Nat) : ∀ {m s : Machine}, m.Reached cfg total →
    s ∈ m.states cfg fuel → s.Reached cfg total := by
  induction fuel with
  | zero =>
    intro m s hm hs
    rwa [List.mem_singleton.mp hs]
  | succ fuel ih =>
    intro m s hm hs
    rw [states] at hs
    split at hs
    · rwa [List.mem_singleton.mp hs]
    · rename_i hempty
      have hresult := (hm.sound_of_ne (by simpa using hempty)).step
      split at hs
      · rename_i m' hstep
        rw [hstep] at hresult
        rcases List.mem_cons.mp hs with rfl | hs
        · exact hm
        · exact ih hresult hs
      · rwa [List.mem_singleton.mp hs]

/-- The machine before the first operator. -/
theorem sound_load (offset : Nat) (body : Text) :
    (load offset body).Sound cfg (offset + body.length) :=
  ⟨rfl, .nil, nofun⟩

end Machine

/-! ### Symbols and types -/

/-- Whether a certain tree is read or a certain text is written can be found out. -/
instance decidableEqOk {ε α : Type} [DecidableEq α] (r : Except ε α) (a : α) :
    Decidable (r = .ok a) :=
  match r with
  | .ok b => decidable_of_iff (b = a) ⟨fun h => by rw [h], fun h => Except.ok.inj h⟩
  | .error _ => .isFalse nofun

instance decidableEqUnshowable {α : Type} :
    (r : Except Raised α) → Decidable (r = .error .unshowable)
  | .error .unshowable => .isTrue rfl
  | .error (.malformed _) => .isFalse nofun
  | .ok _ => .isFalse nofun

variable {cfg : Config} {text : Text} {n : Node}

/-- What a node on the stack stands for, without the node that makes it a type. -/
theorem Node.Made.grammatical_unwrapped (h : n.Made cfg) : n.unwrapped.Grammatical cfg := by
  by_cases hk : n.kind = .type
  · obtain ⟨t, -, rfl⟩ := h.grammatical.root.eq_type hk
    exact h.grammatical.children t (List.mem_singleton_self t)
  · rw [Node.unwrapped_of_ne hk]
    exact h.grammatical

/-- A symbol is loaded without its prefix. -/
theorem loadSymbol_spec (cfg : Config) (text : Text) :
    Ends text.length (loadSymbol cfg text) (Machine.Sound cfg text.length) := by
  unfold loadSymbol
  rcases hsplit : splitPrefix cfg.prefixes text with _ | ⟨offset, body⟩ <;> dsimp only
  · by_cases hclass : Text.startsWith "_Tt".text text = true
    · rw [if_pos hclass]
      exact .complaint (Nat.zero_le _) rfl
    · rw [if_neg hclass]
      by_cases hfunction : Text.startsWith "_T".text text = true
      · rw [if_pos hfunction]
        exact .complaint (Nat.zero_le _) rfl
      · rw [if_neg hfunction]
        exact .complaint (Nat.zero_le _) rfl
  · obtain ⟨p, -, hp⟩ := List.exists_of_findSome?_eq_some hsplit
    obtain ⟨body', hdrop, heq⟩ := Option.map_eq_some_iff.mp hp
    cases heq
    have hlength : text.length = p.length + body.length := by
      rw [Text.eq_append_of_dropPrefix? hdrop, List.length_append]
    rw [hlength]
    by_cases hempty : body.isEmpty = true
    · rw [if_pos hempty]
      exact .complaint (Nat.le_add_right _ _) rfl
    · rw [if_neg hempty]
      exact .ok (Machine.sound_load _ _)

theorem loadType_spec (cfg : Config) (text : Text) :
    Ends text.length (loadType text) (Machine.Sound cfg text.length) := by
  unfold loadType
  by_cases hempty : text.isEmpty = true
  · rw [if_pos hempty]
    exact .complaint (Nat.zero_le _) rfl
  · have hsound := @Machine.sound_load cfg 0 text
    rw [Nat.zero_add] at hsound
    rw [if_neg hempty]
    exact .ok hsound

/-- The tree of a symbol has everything that was left on the stack below its root. -/
structure Node.IsSymbol (cfg : Config) (n : Node) : Prop where
  root : n = .mk .global .none n.children
  nonempty : n.children ≠ []
  children : ∀ c ∈ n.children, ∃ m : Node, m.Made cfg ∧ c = m.unwrapped

theorem Machine.Reached.symbol {m : Machine} {total : Nat} (hm : m.Reached cfg total) :
    Ends total m.symbol (Node.IsSymbol cfg) := by
  unfold Machine.symbol
  dsimp only
  by_cases hempty : m.stack.reverse.map Node.unwrapped = []
  · rw [hempty]
    exact .complaint hm.offset_le rfl
  · rw [if_neg (by simpa using hempty), Node.make_of_fits (Node.fits_global hempty)]
    refine .ok ⟨rfl, hempty, fun c hc => ?_⟩
    obtain ⟨n, hn, rfl⟩ := List.mem_map.mp hc
    exact ⟨n, hm.made n (List.mem_reverse.mp hn), rfl⟩

theorem Machine.Reached.single {m : Machine} {total : Nat} (hm : m.Reached cfg total) :
    Ends total m.single (Node.Made cfg) := by
  unfold Machine.single
  rcases hstack : m.stack with _ | ⟨n, _ | ⟨n', stack⟩⟩
  · exact .complaint hm.offset_le rfl
  · exact .ok (hm.made n (by rw [hstack]; exact List.mem_singleton_self n))
  · exact .complaint hm.offset_le rfl

/-- Reading a symbol ends with its tree. -/
theorem readSymbol_spec (cfg : Config) (text : Text) :
    Ends text.length (readSymbol cfg text) (Node.IsSymbol cfg) :=
  (loadSymbol_spec cfg text).bind fun _ hm => hm.run.bind fun _ hm' => hm'.1.symbol

/-- Reading the bare name of a type ends with a node that was left on the stack. -/
theorem readType_spec (cfg : Config) (text : Text) :
    Ends text.length (readType cfg text) (Node.Made cfg) :=
  (loadType_spec cfg text).bind fun _ hm => hm.run.bind fun _ hm' => hm'.1.single

theorem isSymbol_of_demangle {text : Text} (h : demangle cfg text = .ok n) : n.IsSymbol cfg := by
  have hends := readSymbol_spec cfg text
  rwa [demangle_eq_ok_iff_readSymbol.mp h] at hends

theorem made_of_demangleType {text : Text} (h : demangleType cfg text = .ok n) : n.Made cfg := by
  have hends := readType_spec cfg text
  rwa [demangleType_eq_ok_iff_readType.mp h] at hends

/-! ### Failures -/

/-- A run that is never stuck: whatever its steps pop or look up is as its kind demands, it ends
where the text does, and nothing that it leaves on the stack is refused by the root of a symbol. -/
structure Machine.NeverStuck (cfg : Config) (m : Machine) : Prop where
  shaped (s : Machine) (hs : s ∈ m.states cfg m.rest.length) (n : Node)
    (hn : n ∈ s.stack ++ s.table.nodes) : n.WellShaped
  finished (s : Machine) (hs : m.run cfg = .ok s) : s.rest = []
  root (s : Machine) (hs : m.run cfg = .ok s) (hne : s.stack ≠ []) :
    ∃ n, Node.make .global .none (s.stack.reverse.map Node.unwrapped) = .ok n

/-- Reading ends with a well shaped tree or with a fair complaint, and nothing goes wrong on the way
that would not be a complaint. What is raised is the complaint, unless it calls an entry of the
table unknown whose number has too many digits to be shown. -/
structure EndsAsDocumented (cfg : Config) (text : Text) (loaded : Except Malformed Machine)
    (read : Except Malformed Node) (result : Except Raised Node) : Prop where
  tree (n : Node) (h : result = .ok n) : n.WellShaped
  failure (e : Malformed) (h : result = .error (.malformed e)) : e.Fair text.length
  unshowable : result = .error .unshowable ↔ ∃ (u : UnknownSubstitution) (offset : Nat),
    read = .error ⟨.unknownSubstitution u, offset⟩ ∧ u.isShowable = false
  run (m : Machine) (h : loaded = .ok m) : m.NeverStuck cfg

theorem Machine.Sound.neverStuck {m : Machine} {total : Nat} (hm : m.Sound cfg total) :
    m.NeverStuck cfg where
  shaped s hs n hn := by
    have hreached := Machine.reached_of_mem_states _ (.sound hm) hs
    rcases List.mem_append.mp hn with hn | hn
    · exact (hreached.made n hn).grammatical.wellShaped
    · exact (hreached.table n hn).grammatical.wellShaped
  finished s hs := by
    have hrun := hm.run
    rw [hs] at hrun
    exact hrun.2
  root s hs hne := ⟨_, Node.make_of_fits (Node.fits_global (by simpa using hne))⟩

theorem Node.IsSymbol.wellShaped (h : n.IsSymbol cfg) : n.WellShaped := by
  refine Node.All.iff_walk.mp (.of_children ?_ fun c hc => ?_)
  · rw [h.root]
    exact Node.fits_global h.nonempty
  · obtain ⟨m, hm, rfl⟩ := h.children c hc
    exact hm.grammatical_unwrapped.mono fun _ hm => hm.fits

/-- Raising a fair complaint fails just if it would show a long number. -/
theorem EndsAsDocumented.of_ends {text : Text} {loaded : Except Malformed Machine}
    {read : Except Malformed Node}
    {p : Node → Prop} (hread : Ends text.length read p) (hp : ∀ n, p n → n.WellShaped)
    (hrun : ∀ m, loaded = .ok m → m.NeverStuck cfg) :
    EndsAsDocumented cfg text loaded read (read.mapError Malformed.raise) := by
  rcases read with ⟨complaint, offset⟩ | n
  · have hraise : (Except.error ⟨complaint, offset⟩ : Except Malformed Node).mapError
      Malformed.raise
        = .error (if complaint.isShowable then .malformed ⟨complaint, offset⟩ else .unshowable) :=
        rfl
    rw [hraise]
    refine ⟨nofun, fun e he => ?_, ⟨fun h => ?_, ?_⟩, hrun⟩
    · split at he
      · cases he
        exact hread
      · cases he
    · -- Only a complaint about the table has a number that could be too long.
      split at h
      · cases h
      · rename_i hlong
        cases complaint with
        | unknownSubstitution u =>
          exact ⟨u, offset, rfl, by simpa [Complaint.isShowable] using hlong⟩
        | _ => exact absurd rfl hlong
    · rintro ⟨u, _, ⟨⟩, hlong⟩
      simp [Complaint.isShowable, hlong]
  · exact ⟨fun m hm => by cases hm; exact hp n hread, nofun, ⟨nofun, nofun⟩, hrun⟩

/-- Whatever the text is, reading it as a symbol or as the bare name of a type ends as documented,
unless the number of an entry is too long to be shown. -/
theorem endsAsDocumented_demangle (cfg : Config) (text : Text) :
    EndsAsDocumented cfg text (loadSymbol cfg text) (readSymbol cfg text) (demangle cfg text) ∧
      EndsAsDocumented cfg text (loadType text) (readType cfg text) (demangleType cfg text) := by
  have hloadSymbol := loadSymbol_spec cfg text
  have hloadType := loadType_spec cfg text
  constructor
  · refine .of_ends (readSymbol_spec cfg text) (fun n hn => hn.wellShaped) fun m h => ?_
    rw [h] at hloadSymbol
    exact hloadSymbol.neverStuck
  · refine .of_ends (readType_spec cfg text) (fun n hn => hn.grammatical.wellShaped) fun m h => ?_
    rw [h] at hloadType
    exact hloadType.neverStuck

/-- An entry whose number is written with as many digits as can be shown has one digit more, so that
it cannot be called unknown. -/
theorem demangle_longReference :
    demangle {} ("$sA".text ++ List.replicate Text.maxDigits ('9' : CodePoint) ++ "_".text) =
      .error .unshowable := by
  decide +kernel

end SwiftABI
