/-
  What is encoded in punycode is decoded again.

  The decoder inserts one scalar for each numeral of the encoder. Both count through all pairs of a
  scalar and a position at which it could be inserted; the distance that the encoder has not written
  yet is the one between their counters (`Following.distance`). So the numeral leads the decoder to
  the scalar that the encoder has come to, and to its place among the ones that came before.

  Every text has an encoded form that may stand in a symbol, and is decoded from it
  (`punycodeRoundTrip`).
-/
import SwiftABI.Proofs.Text.CodePoint
import SwiftABI.Proofs.Text.Letter
import SwiftABI.Text.Punycode
import Mathlib.Tactic.Ring

namespace SwiftABI.Punycode

/-! ### Numerals -/

theorem digit_spec {d : Nat} (h : d < base) :
    digitValue? (digit d) = some d ∧ digit d ≠ delimiter ∧ Text.isSymbolChar (digit d) = true := by
  revert d
  decide

/-- The text is made of digits. -/
def AreDigits (w : Text) : Prop := ∀ c ∈ w, ∃ d < base, c = digit d

namespace AreDigits

variable {w w' : Text}

theorem append (h : AreDigits w) (h' : AreDigits w') : AreDigits (w ++ w') :=
  List.forall_mem_append.mpr ⟨h, h'⟩

theorem not_mem_delimiter (h : AreDigits w) : delimiter ∉ w := by
  intro hmem
  obtain ⟨d, hd, heq⟩ := h _ hmem
  exact (digit_spec hd).2.1 heq.symm

theorem isSymbolChar (h : AreDigits w) : ∀ c ∈ w, Text.isSymbolChar c = true := by
  intro c hc
  obtain ⟨d, hd, rfl⟩ := h c hc
  exact (digit_spec hd).2.2

end AreDigits

/-- A decoder that reads the numeral of `q` goes `q` further and inserts. -/
theorem feed_numeral (bias k q : Nat) :
    ∀ d : Decoder, d.bias = bias → d.place = k → (numeral bias k q).foldlM Decoder.feed d
      = some { d with position := d.position + q * d.weight }.insert := by
  induction k, q using numeral.induct bias with
  | case1 k q t hq =>
    intro d hbias hplace
    have hdigit : digitValue? (digit q) = some q :=
      (digit_spec (Nat.lt_trans hq (threshold_lt_base k bias))).1
    rw [numeral, dif_pos hq, List.foldlM_cons]
    have hfeed : d.feed (digit q) =
        some { d with position := d.position + q * d.weight }.insert := by
      unfold Decoder.feed
      rw [hdigit]
      show (if q < threshold d.place d.bias then _ else _) = _
      rw [hbias, hplace, if_pos hq]
    rw [hfeed]
    rfl
  | case2 k q t hq ih =>
    intro d hbias hplace
    have ht : t < base := threshold_lt_base k bias
    -- The digit is not below the threshold, so the numeral goes on.
    have hvalue : t + (q - t) % (base - t) < base := by
      have hmod := Nat.mod_lt (q - t) (Nat.sub_pos_of_lt ht)
      omega
    have hfeed : d.feed (digit (t + (q - t) % (base - t)))
        = some { d with
            position := d.position + (t + (q - t) % (base - t)) * d.weight
            weight := d.weight * (base - t)
            place := k + base } := by
      unfold Decoder.feed
      rw [(digit_spec hvalue).1]
      show (if _ < threshold d.place d.bias then _ else _) = _
      rw [hbias, hplace, if_neg (by omega)]
    have hposition : d.position + (t + (q - t) % (base - t)) * d.weight
        + (q - t) / (base - t) * (d.weight * (base - t)) = d.position + q * d.weight := by
      have hdivision : (q - t) % (base - t) + (base - t) * ((q - t) / (base - t)) = q - t :=
        Nat.mod_add_div _ _
      have hq' : t + ((q - t) % (base - t) + (base - t) * ((q - t) / (base - t))) = q := by omega
      calc
        _ = d.position + (t + ((q - t) % (base - t) + (base - t) * ((q - t) / (base - t)))) *
          d.weight := by
          ring
        _ = d.position + q * d.weight := by rw [hq']
    rw [numeral, dif_neg hq, List.foldlM_cons, hfeed]
    refine (ih { d with
      position := d.position + (t + (q - t) % (base - t)) * d.weight
      weight := d.weight * (base - t)
      place := k + base } hbias rfl).trans ?_
    show some (Decoder.insert { d with
      position := d.position + (t + (q - t) % (base - t)) * d.weight
        + (q - t) / (base - t) * (d.weight * (base - t))
      weight := d.weight * (base - t)
      place := k + base }) = _
    rw [hposition]
    rfl

theorem areDigits_numeral (bias k q : Nat) : AreDigits (numeral bias k q) := by
  induction k, q using numeral.induct bias with
  | case1 k q t hq =>
    rw [numeral, dif_pos hq]
    exact List.forall_mem_singleton.mpr ⟨q, Nat.lt_trans hq (threshold_lt_base k bias), rfl⟩
  | case2 k q t hq ih =>
    have ht : t < base := threshold_lt_base k bias
    have hvalue : t + (q - t) % (base - t) < base := by
      have hmod := Nat.mod_lt (q - t) (Nat.sub_pos_of_lt ht)
      omega
    rw [numeral, dif_neg hq]
    exact List.forall_mem_cons.mpr ⟨⟨_, hvalue, rfl⟩, ih⟩

/-! ### Following the encoder -/

/-- What the encoder has written between two states leads the decoder from one state to another. -/
def Leads (e e' : Encoder) (d d' : Decoder) : Prop :=
  ∃ w, e'.output = e.output ++ w ∧ AreDigits w ∧ w.foldlM Decoder.feed d = some d'

theorem Leads.of_output_eq {e e' : Encoder} (h : e'.output = e.output) (d : Decoder) :
    Leads e e' d d :=
  ⟨[], by rw [h, List.append_nil], nofun, rfl⟩

theorem Leads.trans {e e' e'' : Encoder} {d d' d'' : Decoder} (h : Leads e e' d d')
    (h' : Leads e' e'' d' d'') : Leads e e'' d d'' := by
  obtain ⟨w, houtput, hw, hfeed⟩ := h
  obtain ⟨w', houtput', hw', hfeed'⟩ := h'
  refine ⟨w ++ w', by rw [houtput', houtput, List.append_assoc], hw.append hw', ?_⟩
  rw [List.foldlM_append, hfeed]
  exact hfeed'

/-- A decoder has read what an encoder has written, which is about to pass the scalars `after` in
the round for `m`. -/
structure Following (first : Nat) (before after : List Nat) (m : Nat) (e : Encoder) (d : Decoder) :
    Prop where
  output : d.output = before.filter (· ≤ m) ++ after.filter (· < m)
  handled : e.handled = d.output.length
  distance : d.scalar * (e.handled + 1) + d.position + e.delta
    = m * (e.handled + 1) + (before.filter (· ≤ m)).length
  scalar : d.scalar ≤ m
  bias : d.bias = e.bias
  start : d.start = d.position
  first_le : first ≤ e.handled
  isFirst : d.start = 0 ↔ e.handled = first
  weight : d.weight = 1
  place : d.place = base

namespace Following

variable {first m c : Nat} {before after : List Nat} {e : Encoder} {d : Decoder}

private theorem insertIdx_append (l l' : List Nat) (x : Nat) :
    (l ++ l').insertIdx l.length x = l ++ x :: l' := by
  induction l with
  | nil => exact List.insertIdx_zero
  | cons y l ih =>
    rw [List.cons_append, List.length_cons, List.insertIdx_succ_cons, ih]
    rfl

/-- The numeral of the distance leads to the scalar and its place. -/
private theorem insert_eq (h : Following first before (m :: after) m e d) :
    (Decoder.insert { d with position := d.position + e.delta * d.weight }) =
      { scalar := m
        position := (before.filter (· ≤ m)).length + 1
        bias := adapt e.delta (e.handled + 1) (e.handled = first)
        output := (before ++ [m]).filter (· ≤ m) ++ after.filter (· < m)
        start := (before.filter (· ≤ m)).length + 1, weight := 1, place := base } := by
  have hoffset : d.position + e.delta
      = (before.filter (· ≤ m)).length + (m - d.scalar) * (e.handled + 1) := by
    have hdistance := h.distance
    obtain ⟨k, hk⟩ : ∃ k, m = d.scalar + k := ⟨m - d.scalar, by have hm := h.scalar; omega⟩
    have hsub : m - d.scalar = k := by omega
    have hproduct : m * (e.handled + 1) = d.scalar * (e.handled + 1) + k * (e.handled + 1) := by
      rw [hk, Nat.add_mul]
    rw [hsub]
    omega
  have hplace : (before.filter (· ≤ m)).length < e.handled + 1 := by
    rw [h.handled, h.output, List.length_append]
    omega
  -- Dividing by the number of scalars takes the distance apart again, since the place is less than
  -- that.
  have hdiv : (d.position + e.delta) / (e.handled + 1) = m - d.scalar := by
    rw [hoffset, Nat.add_mul_div_right _ _ (Nat.succ_pos _), Nat.div_eq_of_lt hplace, Nat.zero_add]
  have hmod : (d.position + e.delta) % (e.handled + 1) = (before.filter (· ≤ m)).length := by
    rw [hoffset, Nat.add_mul_mod_self_right, Nat.mod_eq_of_lt hplace]
  have hscalar : d.scalar + (m - d.scalar) = m := Nat.add_sub_cancel' h.scalar
  have hdelta : d.position + e.delta - d.start = e.delta := by
    rw [h.start]
    omega
  have hinsert : d.output.insertIdx (before.filter (· ≤ m)).length m
      = (before ++ [m]).filter (· ≤ m) ++ after.filter (· < m) := by
    have houtput := h.output
    rw [List.filter_cons_of_neg (by simp)] at houtput
    rw [houtput, insertIdx_append]
    simp
  have hfirst : decide (d.start = 0) = decide (e.handled = first) := decide_eq_decide.mpr h.isFirst
  unfold Decoder.insert
  rw [h.weight, Nat.mul_one]
  simp only [← h.handled, hdiv, hmod, hscalar, hdelta, hinsert, hfirst]

/-- The encoder passes a scalar. -/
theorem pass (h : Following first before (c :: after) m e d) (hm : e.scalar = m) :
    ∃ d', Leads e (e.pass first c) d d' ∧
      Following first (before ++ [c]) after m (e.pass first c) d' ∧
      (e.pass first c).scalar = m := by
  rcases Nat.lt_trichotomy c m with hc | rfl | hc
  · -- It has been handled in an earlier round, so the place to insert at is one further.
    have hpass : e.pass first c = { e with delta := e.delta + 1 } := by
      unfold Encoder.pass
      rw [if_pos (by omega)]
    have hbefore : (before ++ [c]).filter (· ≤ m) = before.filter (· ≤ m) ++ [c] := by
      simp [Nat.le_of_lt hc]
    rw [hpass]
    refine ⟨d, .of_output_eq rfl d, { h with output := ?_, distance := ?_ }, hm⟩
    · rw [h.output, hbefore]
      simp [hc]
    · have hdistance := h.distance
      rw [hbefore, List.length_append, List.length_singleton]
      show d.scalar * (e.handled + 1) + d.position + (e.delta + 1) = m * (e.handled + 1) + _
      omega
  · -- It is its turn.
    have hpass : e.pass first c = { e with
        delta := 0
        bias := adapt e.delta (e.handled + 1) (e.handled = first)
        handled := e.handled + 1
        output := e.output ++ numeral e.bias base e.delta } := by
      unfold Encoder.pass
      rw [if_neg (by omega), if_pos (by omega)]
    have hinsert := h.insert_eq
    have hfeed := feed_numeral e.bias base e.delta d h.bias h.place
    rw [hinsert] at hfeed
    rw [hpass]
    refine ⟨_, ⟨numeral e.bias base e.delta, rfl, areDigits_numeral _ _ _, hfeed⟩, ?_, hm⟩
    have hlength : (before ++ [c]).filter (· ≤ c) = before.filter (· ≤ c) ++ [c] := by simp
    have hhandled := h.handled
    rw [h.output, List.length_append] at hhandled
    refine ⟨rfl, ?_, ?_, Nat.le_refl c, rfl, rfl, ?_, ?_, rfl, rfl⟩
    · show e.handled + 1 = _
      rw [hhandled, hlength]
      simp
      omega
    · show c * (e.handled + 1 + 1) + ((before.filter (· ≤ c)).length + 1) + 0
        = c * (e.handled + 1 + 1) + ((before ++ [c]).filter (· ≤ c)).length
      rw [hlength, List.length_append, List.length_singleton, Nat.add_zero]
    · show first ≤ e.handled + 1
      have hle := h.first_le
      omega
    · show (before.filter (· ≤ c)).length + 1 = 0 ↔ e.handled + 1 = first
      have hle := h.first_le
      omega
  · -- It has to wait for a later round.
    have hpass : e.pass first c = e := by
      unfold Encoder.pass
      rw [if_neg (by omega), if_neg (by omega)]
    have hbefore : (before ++ [c]).filter (· ≤ m) = before.filter (· ≤ m) := by
      simp [hc]
    rw [hpass]
    refine ⟨d, .of_output_eq rfl d, { h with output := ?_, distance := ?_ }, hm⟩
    · rw [h.output, hbefore, List.filter_cons_of_neg (by simp; omega)]
    · rw [hbefore]
      exact h.distance

/-- The encoder passes all scalars. -/
theorem foldl_pass (h : Following first before after m e d) (hm : e.scalar = m) :
    ∃ d', Leads e (after.foldl (Encoder.pass first) e) d d' ∧
      Following first (before ++ after) [] m (after.foldl (Encoder.pass first) e) d' := by
  induction after generalizing before e d with
  | nil => exact ⟨d, .of_output_eq rfl d, by rwa [List.append_nil]⟩
  | cons c after ih =>
    obtain ⟨d₁, hleads, hfollowing, hscalar⟩ := h.pass hm
    obtain ⟨d₂, hleads', hfollowing'⟩ := ih hfollowing hscalar
    refine ⟨d₂, hleads.trans hleads', ?_⟩
    rwa [List.append_assoc] at hfollowing'

variable {scalars : List Nat}

/-- A round begins by going on to the next scalar in order, and ends at the one behind it. -/
theorem advance (h : Following first [] scalars e.scalar e d) (hm : e.scalar ≤ m)
    (hgap : ∀ c ∈ scalars, c < e.scalar ∨ m ≤ c) :
    ∃ d', Leads e (e.advance scalars first m) d d' ∧
      Following first [] scalars (m + 1) (e.advance scalars first m) d' := by
  -- There are no scalars in the gap, so that passing it changes nothing in what has been handled.
  have hready : Following first [] scalars m
      { e with scalar := m, delta := e.delta + (m - e.scalar) * (e.handled + 1) } d := by
    refine { h with output := ?_, distance := ?_, scalar := Nat.le_trans h.scalar hm }
    · rw [h.output]
      show scalars.filter _ = scalars.filter _
      refine List.filter_congr fun c hc => decide_eq_decide.mpr ?_
      rcases hgap c hc with hc | hc <;> omega
    · have hdistance : d.scalar * (e.handled + 1) + d.position + e.delta
          = e.scalar * (e.handled + 1) + 0 := h.distance
      obtain ⟨k, rfl⟩ : ∃ k, m = e.scalar + k := ⟨m - e.scalar, by omega⟩
      show d.scalar * (e.handled + 1) + d.position
        + (e.delta + (e.scalar + k - e.scalar) * (e.handled + 1)) =
        (e.scalar + k) * (e.handled + 1) + 0
      rw [Nat.add_sub_cancel_left, Nat.add_mul]
      omega
  obtain ⟨d', hleads, hpassed⟩ := hready.foldl_pass rfl
  refine ⟨d', hleads, ?_⟩
  have houtput : d'.output = scalars.filter (· < m + 1) := by
    have houtput := hpassed.output
    rw [List.nil_append, List.filter_nil, List.append_nil] at houtput
    rw [houtput]
    exact List.filter_congr fun c _ => decide_eq_decide.mpr (by omega)
  refine { hpassed with
    output := houtput, distance := ?_, scalar := Nat.le_succ_of_le hpassed.scalar }
  have hdistance := hpassed.distance
  have hhandled := hpassed.handled
  rw [hpassed.output, List.filter_nil, List.append_nil] at hhandled
  rw [← hhandled] at hdistance
  show d'.scalar * _ + d'.position + (_ + 1) = (m + 1) * _ + 0
  unfold Encoder.advance
  rw [Nat.add_mul]
  simp only at hdistance ⊢
  omega

/-- The rounds go on until all scalars have been handled. -/
theorem foldl_advance {ms : List Nat} (h : Following first [] scalars e.scalar e d)
    (hsorted : ms.Pairwise (· < ·)) (hle : ∀ m ∈ ms, e.scalar ≤ m)
    (hrest : ∀ c ∈ scalars, c < e.scalar ∨ c ∈ ms) :
    ∃ d', Leads e (ms.foldl (Encoder.advance scalars first) e) d d' ∧
      d'.output = scalars ∧ d'.place = base := by
  -- By induction on the scalars that are left, the smallest first.
  induction ms generalizing e d with
  | nil =>
    refine ⟨d, .of_output_eq rfl d, ?_, h.place⟩
    rw [h.output, List.filter_nil, List.nil_append, List.filter_eq_self]
    intro c hc
    rcases hrest c hc with hc | hc
    · exact decide_eq_true hc
    · cases hc
  | cons m ms ih =>
    obtain ⟨hm, hms⟩ := List.pairwise_cons.mp hsorted
    have hgap : ∀ c ∈ scalars, c < e.scalar ∨ m ≤ c := by
      intro c hc
      rcases hrest c hc with hc | hc
      · exact .inl hc
      · rcases List.mem_cons.mp hc with rfl | hc
        · exact .inr (Nat.le_refl _)
        · exact .inr (Nat.le_of_lt (hm c hc))
    obtain ⟨d₁, hleads, hfollowing⟩ := h.advance (hle m List.mem_cons_self) hgap
    have hscalar : (e.advance scalars first m).scalar = m + 1 := rfl
    obtain ⟨d₂, hleads', houtput, hplace⟩ := ih (e := e.advance scalars first m) hfollowing hms
      (fun c hc => hm c hc) fun c hc => by
        rw [hscalar]
        rcases hrest c hc with hc | hc
        · exact .inl (by have hle := hle m List.mem_cons_self; omega)
        · rcases List.mem_cons.mp hc with rfl | hc
          · exact .inl (Nat.lt_succ_self _)
          · exact .inr hc
    exact ⟨d₂, hleads.trans hleads', houtput, hplace⟩

end Following

/-! ### The scalars that numerals are written for -/

theorem mem_insertDistinct {c x : Nat} {ms : List Nat} :
    x ∈ insertDistinct c ms ↔ x = c ∨ x ∈ ms := by
  induction ms with
  | nil => simp [insertDistinct]
  | cons m ms ih =>
    unfold insertDistinct
    split
    · simp
    · split
      · simp [*]
      · simp only [List.mem_cons, ih]
        exact or_left_comm

theorem pairwise_insertDistinct {c : Nat} {ms : List Nat} (h : ms.Pairwise (· < ·)) :
    (insertDistinct c ms).Pairwise (· < ·) := by
  induction ms with
  | nil => exact List.pairwise_singleton _ _
  | cons m ms ih =>
    obtain ⟨hm, hms⟩ := List.pairwise_cons.mp h
    unfold insertDistinct
    split
    · rename_i hc
      refine List.pairwise_cons.mpr ⟨fun x hx => ?_, h⟩
      rcases List.mem_cons.mp hx with rfl | hx
      · exact hc
      · exact Nat.lt_trans hc (hm x hx)
    · split
      · exact h
      · refine List.pairwise_cons.mpr ⟨fun x hx => ?_, ih hms⟩
        rcases mem_insertDistinct.mp hx with rfl | hx
        · omega
        · exact hm x hx

theorem mem_extended {scalars : List Nat} {c : Nat} :
    c ∈ extended scalars ↔ c ∈ scalars ∧ initialScalar ≤ c := by
  have hfold : ∀ ms : List Nat, c ∈ ms.foldr insertDistinct [] ↔ c ∈ ms := by
    intro ms
    induction ms with
    | nil => exact Iff.rfl
    | cons m ms ih => rw [List.foldr_cons, mem_insertDistinct, ih, List.mem_cons]
  unfold extended
  rw [hfold]
  simp

theorem pairwise_extended (scalars : List Nat) : (extended scalars).Pairwise (· < ·) := by
  unfold extended
  induction scalars.filter (fun c => initialScalar ≤ c) with
  | nil => exact List.Pairwise.nil
  | cons m ms ih => exact pairwise_insertDistinct ih

/-! ### Whole texts -/

/-- The literals are found in front of the last delimiter. -/
theorem splitAtDelimiter_append {basic numerals : Text} (h : delimiter ∉ numerals) :
    splitAtDelimiter (basic ++ (if basic.isEmpty then [] else [delimiter]) ++ numerals)
      = (basic, numerals) := by
  have hall : ∀ c ∈ numerals.reverse, decide (c ≠ delimiter) = true := by
    intro c hc
    refine decide_eq_true ?_
    rintro rfl
    exact h (List.mem_reverse.mp hc)
  have htail : ∀ rest : Text, (∀ c, rest.head? = some c → c = delimiter) →
      (numerals.reverse ++ rest).dropWhile (fun c => decide (c ≠ delimiter)) = rest ∧
        (numerals.reverse ++ rest).takeWhile (fun c => decide (c ≠ delimiter)) =
        numerals.reverse := by
    intro rest hrest
    rw [List.dropWhile_append_of_pos hall, List.takeWhile_append_of_pos hall]
    rcases rest with _ | ⟨c, rest⟩
    · exact ⟨rfl, List.append_nil _⟩
    · rw [hrest c rfl, List.dropWhile_cons_of_neg (by simp), List.takeWhile_cons_of_neg (by simp)]
      exact ⟨rfl, List.append_nil _⟩
  -- Seen from the end, the numerals go up to the delimiter, or are all there is.
  rcases basic with _ | ⟨b, basic⟩
  · obtain ⟨hdrop, htake⟩ := htail [] nofun
    rw [List.append_nil] at hdrop htake
    show (((numerals.reverse.dropWhile _).drop 1).reverse, (numerals.reverse.takeWhile _).reverse) =
      _
    rw [hdrop, htake, List.reverse_reverse]
    rfl
  · obtain ⟨hdrop, htake⟩ := htail (delimiter :: (b :: basic).reverse) fun c hc =>
      (Option.some.inj hc).symm
    have hreverse : ((b :: basic) ++ (if (b :: basic).isEmpty then [] else [delimiter])
        ++ numerals).reverse = numerals.reverse ++ delimiter :: (b :: basic).reverse := by simp
    show (((((b :: basic) ++ (if (b :: basic).isEmpty then [] else [delimiter])
      ++ numerals).reverse.dropWhile _).drop 1).reverse,
      (List.takeWhile _ (List.reverse _)).reverse) = _
    rw [hreverse, hdrop, htake, List.reverse_reverse]
    show ((b :: basic).reverse.reverse, _) = _
    rw [List.reverse_reverse]

/-- The encoded form has the literals in front and digits behind them, which lead the decoder from
the literals to all scalars. -/
theorem exists_encodeScalars (scalars : List Nat) :
    ∃ w d, encodeScalars scalars = (literals scalars).map CodePoint.ofNat
        ++ (if ((literals scalars).map CodePoint.ofNat).isEmpty then [] else [delimiter]) ++ w ∧
      AreDigits w ∧ w.foldlM Decoder.feed (Decoder.begin (literals scalars)) = some d ∧
      d.output = scalars ∧ d.place = base := by
  let start : Encoder :=
    { scalar := initialScalar, delta := 0, bias := initialBias, handled := (literals scalars).length
      output := (literals scalars).map CodePoint.ofNat
        ++ (if (literals scalars).isEmpty then [] else [delimiter]) }
  have hfollowing : Following (literals scalars).length [] scalars start.scalar start
      (Decoder.begin (literals scalars)) :=
    ⟨rfl, rfl, rfl, Nat.le_refl _, rfl, rfl, Nat.le_refl _, ⟨fun _ => rfl, fun _ => rfl⟩, rfl, rfl⟩
  obtain ⟨d, ⟨w, houtput, hw, hfeed⟩, hscalars, hplace⟩ :=
    hfollowing.foldl_advance (pairwise_extended scalars) (fun m hm => (mem_extended.mp hm).2)
      fun c hc => by
        rcases Nat.lt_or_ge c initialScalar with hlt | hge
        · exact .inl hlt
        · exact .inr (mem_extended.mpr ⟨hc, hge⟩)
  refine ⟨w, d, ?_, hw, hfeed, hscalars, hplace⟩
  rw [List.isEmpty_map]
  exact houtput

/-- The scalars that can be encoded are decoded again. -/
theorem decode_encodeScalars (scalars : List Nat) (h : ∀ c ∈ scalars, restore c ≤ 0x10FFFF) :
    decode (encodeScalars scalars) = some (scalars.map restore) := by
  have hliterals : ((literals scalars).map CodePoint.ofNat).map CodePoint.toNat =
      literals scalars := by
    rw [List.map_map]
    refine (List.map_congr_left fun c hc => ?_).trans (List.map_id _)
    have hlt : c < initialScalar := of_decide_eq_true (List.mem_filter.mp hc).2
    exact CodePoint.toNat_ofNat (Nat.lt_trans hlt (by decide))
  obtain ⟨w, d, hencoded, hw, hfeed, hscalars, hplace⟩ := exists_encodeScalars scalars
  have hascii : ((literals scalars).map CodePoint.ofNat).any (fun c => 0x7f < c.toNat) = false := by
    rw [List.any_eq_false]
    intro c hc
    obtain ⟨n, hn, rfl⟩ := List.mem_map.mp hc
    have hlt : n < 0x80 := of_decide_eq_true (List.mem_filter.mp hn).2
    rw [CodePoint.toNat_ofNat (Nat.lt_trans hlt (by decide)), decide_eq_true_eq]
    omega
  have hrange : ((d.output.map restore).all fun c => c ≤ 0x10FFFF) = true := by
    rw [hscalars, List.all_eq_true]
    intro c hc
    obtain ⟨n, hn, rfl⟩ := List.mem_map.mp hc
    exact decide_eq_true (h n hn)
  unfold decode
  rw [hencoded, splitAtDelimiter_append hw.not_mem_delimiter]
  simp only [hascii, hliterals]
  show (List.foldlM Decoder.feed (Decoder.begin (literals scalars)) w >>= _) = _
  rw [hfeed]
  show (if d.place ≠ base then none else if _ then _ else _) = _
  rw [if_neg (by rw [hplace]; simp), if_pos hrange, hscalars]

/-- Restoring undoes the displacement, except for surrogates. -/
theorem restore_displace {c : Nat} (h : c.isValidChar) : restore (displace c) = c := by
  unfold Nat.isValidChar at h
  unfold restore displace displacement
  split
  · rename_i hc
    have hlt : c < 0x80 := by simp at hc; exact hc.1
    rw [if_pos (by simp; omega)]
    omega
  · rw [if_neg (by simp; omega)]

theorem isEncodable_iff {c : Nat} :
    isEncodable c = true ↔ c < 0xD880 ∨ (0xE000 ≤ c ∧ c ≤ 0x1FFFFF) := by
  unfold isEncodable
  rw [Bool.or_eq_true, Bool.and_eq_true, decide_eq_true_eq, decide_eq_true_eq, decide_eq_true_eq]

theorem encode_eq_some_iff {scalars : List Nat} {encoded : Text} :
    encode scalars = some encoded ↔
      (∀ c ∈ scalars, isEncodable (displace c) = true) ∧
      encoded = encodeScalars (scalars.map displace) := by
  have hall : (scalars.map displace).all isEncodable = true ↔
      ∀ c ∈ scalars, isEncodable (displace c) = true := by
    rw [List.all_map, List.all_eq_true]
    rfl
  change (if (scalars.map displace).all isEncodable then
    some (encodeScalars (scalars.map displace)) else none) = some encoded ↔ _
  rw [← hall]
  split
  · rename_i hencodable
    rw [Option.some.injEq, eq_comm, and_iff_right hencodable]
  · rename_i hrefused
    exact ⟨fun h => absurd h (by simp), fun h => absurd h.1 hrefused⟩

/-- Scalars that the displacement is undone for are decoded from their encoded form, if there is
one. -/
theorem decode_encode_of_restore {scalars : List Nat} {encoded : Text}
    (hrange : ∀ c ∈ scalars, c ≤ 0x10FFFF) (hrestore : ∀ c ∈ scalars, restore (displace c) = c)
    (h : encode scalars = some encoded) : decode encoded = some scalars := by
  have hscalars : (scalars.map displace).map restore = scalars := by
    rw [List.map_map]
    exact (List.map_congr_left hrestore).trans (List.map_id _)
  rw [(encode_eq_some_iff.mp h).2, decode_encodeScalars, hscalars]
  intro n hn
  obtain ⟨c, hc, rfl⟩ := List.mem_map.mp hn
  rw [hrestore c hc]
  exact hrange c hc

/-- The scalars of characters are decoded from their encoded form, if there is one. -/
theorem decode_encode {scalars : List Nat} {encoded : Text} (hvalid : ∀ c ∈ scalars, c.isValidChar)
    (h : encode scalars = some encoded) : decode encoded = some scalars := by
  refine decode_encode_of_restore (fun c hc => ?_) (fun c hc => restore_displace (hvalid c hc)) h
  rcases hvalid c hc with hlt | ⟨-, hlt⟩
  · exact Nat.le_of_lt (Nat.lt_trans hlt (by decide))
  · exact Nat.le_of_lt_succ hlt

/-- None of the code points is a surrogate that stands for an ASCII character in an encoded form. -/
def Keeps (name : Text) : Prop := ∀ c ∈ name, restore (displace c.toNat) = c.toNat

instance (name : Text) : Decidable (Keeps name) :=
  inferInstanceAs (Decidable (∀ c ∈ name, restore (displace c.toNat) = c.toNat))

theorem Keeps.of_noSurrogates {name : Text} (h : name.NoSurrogates) : Keeps name :=
  fun c hc => restore_displace (CodePoint.isValidChar_toNat (h c hc))

theorem isValidChar_of_mem (name : List Char) : ∀ c ∈ name.map Char.toNat, c.isValidChar := by
  intro n hn
  obtain ⟨c, -, rfl⟩ := List.mem_map.mp hn
  exact c.valid

/-- What is written for a displaced scalar may stand in a symbol. -/
theorem isSymbolChar_of_mem_encodeScalars {scalars : List Nat}
    (h : ∀ n ∈ scalars, n < initialScalar → Text.isSymbolChar (CodePoint.ofNat n) = true) :
    ∀ c ∈ encodeScalars scalars, Text.isSymbolChar c = true := by
  obtain ⟨w, d, hencoded, hw, -⟩ := exists_encodeScalars scalars
  intro c hc
  rw [hencoded, List.mem_append, List.mem_append] at hc
  rcases hc with (hc | hc) | hc
  · obtain ⟨n, hn, rfl⟩ := List.mem_map.mp hc
    obtain ⟨hn, hlt⟩ := List.mem_filter.mp hn
    exact h n hn (of_decide_eq_true hlt)
  · split at hc
    · cases hc
    · rw [List.mem_singleton.mp hc]
      rfl
  · exact hw.isSymbolChar c hc

/-- A scalar that is left alone by the displacement, and is ASCII, is one of a symbol. -/
theorem isSymbolChar_displace {c : Nat} (h : displace c < initialScalar) :
    Text.isSymbolChar (CodePoint.ofNat (displace c)) = true := by
  unfold displace displacement initialScalar at *
  split at h
  · omega
  · rename_i hc
    rw [if_neg hc]
    simpa [isSymbolScalar, h] using hc

/-- The scalar of a character can be encoded. -/
theorem isEncodable_displace {c : Nat} (h : c.isValidChar) : isEncodable (displace c) = true := by
  unfold Nat.isValidChar at h
  rw [isEncodable_iff]
  unfold displace displacement
  split
  · rename_i hascii
    rw [Bool.and_eq_true, decide_eq_true_eq] at hascii
    omega
  · omega

/-- The scalars of characters can all be encoded. -/
theorem exists_encode {scalars : List Nat} (h : ∀ c ∈ scalars, c.isValidChar) :
    ∃ encoded, encode scalars = some encoded :=
  ⟨_, encode_eq_some_iff.mpr ⟨fun c hc => isEncodable_displace (h c hc), rfl⟩⟩

/-- What an encoded form is made of may stand in a symbol. -/
theorem isSymbolChar_of_mem_encode {identifier : List Nat} {encoded : Text}
    (h : encode identifier = some encoded) : ∀ c ∈ encoded, Text.isSymbolChar c = true := by
  rw [(encode_eq_some_iff.mp h).2]
  refine isSymbolChar_of_mem_encodeScalars fun n hn => ?_
  obtain ⟨c, -, rfl⟩ := List.mem_map.mp hn
  exact isSymbolChar_displace

/-- Every text of characters has an encoded form of symbol characters, which is decoded to the
text. -/
theorem punycodeRoundTrip (name : List Char) :
    ∃ encoded, encode (name.map Char.toNat) = some encoded ∧
      (∀ c ∈ encoded, Text.isSymbolChar c = true) ∧
      decode encoded = some (name.map Char.toNat) := by
  obtain ⟨encoded, hencode⟩ := exists_encode (isValidChar_of_mem name)
  exact ⟨encoded, hencode, isSymbolChar_of_mem_encode hencode,
    decode_encode (isValidChar_of_mem name) hencode⟩

/-- A blank and a letter with an accent are both encoded, and the underscore is a literal. -/
example : encode ("_ é".text.map CodePoint.toNat) = some "__bgaIJDGn".text := by decide +kernel

end SwiftABI.Punycode
