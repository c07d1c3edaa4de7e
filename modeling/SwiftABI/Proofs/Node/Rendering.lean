/-
  A rendering tells which tree it is of.

  The outline of a tree lists its nodes in the order of a walk, each with its depth
  (`Node.map_outline`). A rendering has one line for each of them, in that order (`Node.lines_eq`).
  Since names of kinds are made of letters and texts are quoted, a line holds no line break and
  tells the depth, the kind and the payload of its node (`Node.lineOf_injective`). These make up the
  tree again: what lies below a node are the nodes behind it that are deeper, and they end at the
  first one that is not (`Node.outline_inj`). So no two trees are rendered alike
  (`Node.render_faithful`).
-/
import SwiftABI.Node.Rendering
import SwiftABI.Proofs.Text.Numeral
import SwiftABI.Proofs.Text.Pieces
import SwiftABI.Proofs.Text.Quoted
import Mathlib.Data.List.Basic

namespace SwiftABI

/-! ### Headings -/

namespace Kind

/-- The names of kinds are made of letters. -/
theorem isLetter_of_mem_name (k : Kind) :
    ∀ c ∈ k.name.text, Text.isLower c = true ∨ Text.isUpper c = true := by
  have hall : ∀ k ∈ all, (k.name.text.all fun c => Text.isLower c || Text.isUpper c) = true := by
    decide +kernel
  intro c hc
  exact Bool.or_eq_true_iff.mp (List.all_eq_true.mp (hall k (mem_all k)) c hc)

theorem ofName?_name (k : Kind) : ofName? k.name = some k := by
  have hall : ∀ k ∈ all, ofName? k.name = some k := by decide +kernel
  exact hall k (mem_all k)

/-- No two kinds have one name. -/
theorem name_injective : Function.Injective name := by
  intro k k' h
  have hfound := ofName?_name k
  rw [h, ofName?_name k'] at hfound
  exact (Option.some.inj hfound).symm

end Kind

namespace Payload

/-- What a heading says of a payload, behind the name of the kind. -/
def detail : Payload → Text
  | .none => []
  | p => ": ".text ++ p.shown

/-- A detail begins with a colon. -/
theorem head?_detail (p : Payload) : ∀ c, p.detail.head? = some c → c = ':' := by
  cases p <;> simp [detail, String.text, eq_comm]

/-- A quotation is no number. -/
theorem quoted_ne_decimal (t : Text) (n : Int) : Text.quoted t ≠ Text.decimal n := by
  intro h
  have hmem : Text.delimiter t ∈ Text.decimal n := by simp [← h, Text.quoted]
  have hnumeral := Text.digit_or_sign_of_mem_decimal hmem
  rcases Text.isQuote_delimiter t with hquote | hquote <;> rw [hquote] at hnumeral
  all_goals exact absurd hnumeral (by decide)

theorem detail_injective : Function.Injective detail := by
  intro p q h
  -- Only a node without payload has no detail, and there are two sorts of others.
  cases p <;> cases q <;> simp only [detail, shown, List.append_cancel_left_eq] at h
  case none.none => rfl
  case text.text s t => rw [Text.quoted_injective h]
  case index.index n m => rw [Text.decimal_injective h]
  case text.index t n => exact absurd h (quoted_ne_decimal t n)
  case index.text n t => exact absurd h.symm (quoted_ne_decimal t n)
  all_goals simp [String.text] at h

theorem isPrintable_of_mem_detail {p : Payload} {c : CodePoint} (hc : c ∈ p.detail) :
    Text.isPrintable c = true := by
  have hmarks : ∀ c ∈ ": ".text, Text.isPrintable c = true := List.all_eq_true.mp (by decide)
  cases p with
  | none => simp [detail] at hc
  | text t =>
    rcases List.mem_append.mp hc with hc | hc
    · exact hmarks c hc
    · exact Text.isPrintable_of_mem_quoted hc
  | index n =>
    rcases List.mem_append.mp hc with hc | hc
    · exact hmarks c hc
    rcases Text.digit_or_sign_of_mem_decimal hc with hdigit | rfl
    · rw [Text.isDigit_iff] at hdigit
      exact Text.isPrintable_of_ascii (by omega)
    · decide

end Payload

namespace Node

theorem heading_eq (n : Node) : n.heading = n.kind.name.text ++ n.payload.detail := by
  rcases n with ⟨k, p, cs⟩
  cases p <;> simp [heading, payload, kind, Payload.detail]

/-- The kind and payload of a node, with its depth. -/
def label (e : Nat × Node) : Nat × Kind × Payload := (e.1, e.2.kind, e.2.payload)

/-- A line as it is made from a label, two blanks further in for each level. -/
def lineOf (l : Nat × Kind × Payload) : Text :=
  Text.blanks (2 * l.1) ++ (l.2.1.name.text ++ l.2.2.detail)

theorem line_eq_heading (depth : Nat) (n : Node) :
    line (2 * depth) n = Text.blanks (2 * depth) ++ n.heading := by
  have hindent : ((2 : Int) * depth).toNat = 2 * depth := by omega
  rw [line, hindent]

theorem line_eq (e : Nat × Node) : line (2 * e.1) e.2 = lineOf (label e) := by
  rw [line_eq_heading, heading_eq, lineOf, label]

/-- A line tells the depth, the kind and the payload. -/
theorem lineOf_injective : Function.Injective lineOf := by
  rintro ⟨depth, k, p⟩ ⟨depth', k', p'⟩ h
  have hletter (k : Kind) : ∀ c ∈ k.name.text, c ≠ ' ' ∧ c ≠ ':' := by
    intro c hc
    have hletter := k.isLetter_of_mem_name c hc
    constructor <;> rintro rfl <;> exact absurd hletter (by decide)
  have hname (k : Kind) : ∀ c ∈ k.name.text, (c != ':') = true := by
    intro c hc
    simpa using (hletter k c hc).2
  have hdetail (p : Payload) : ∀ c, p.detail.head? = some c → (c != ':') = false := by
    intro c hc
    simp [p.head?_detail c hc]
  have hblank (n : Nat) : ∀ c ∈ Text.blanks n, (c == ' ') = true := by
    intro c hc
    simpa using List.eq_of_mem_replicate hc
  have hheading (k : Kind) (p : Payload) :
      ∀ c, (k.name.text ++ p.detail).head? = some c → (c == ' ') = false := by
    intro c hc
    rw [List.head?_append, Option.or_eq_some_iff] at hc
    rcases hc with hname | ⟨-, hdetail⟩
    · simpa using (hletter k c (List.mem_of_mem_head? hname)).1
    · simp [p.head?_detail c hdetail]
  -- The blanks end where the name begins, and the name ends where the colon stands.
  obtain ⟨hblanks, hrest⟩ :=
    Text.append_inj_of_split (hblank _) (hheading k p) (hblank _) (hheading k' p') h
  obtain ⟨hkind, hpayload⟩ :=
    Text.append_inj_of_split (hname k) (hdetail p) (hname k') (hdetail p') hrest
  have hdepth : depth = depth' := by
    have hlength := congrArg List.length hblanks
    simp only [Text.blanks, List.length_replicate] at hlength
    omega
  rw [hdepth, Kind.name_injective (String.text_injective hkind), Payload.detail_injective hpayload]

theorem isPrintable_of_mem_lineOf {l : Nat × Kind × Payload} {c : CodePoint} (hc : c ∈ lineOf l) :
    Text.isPrintable c = true := by
  simp only [lineOf, Text.blanks, List.mem_append, List.mem_replicate] at hc
  rcases hc with ⟨-, rfl⟩ | hname | hdetail
  · decide
  · have hletter := l.2.1.isLetter_of_mem_name c hname
    rw [Text.isLower_iff, Text.isUpper_iff] at hletter
    exact Text.isPrintable_of_ascii (by omega)
  · exact Payload.isPrintable_of_mem_detail hdetail

/-! ### Outlines -/

mutual

/-- The nodes of a tree, each with its depth, where the root has depth `depth`. -/
def outline (depth : Nat) : Node → List (Nat × Node)
  | .mk k p cs => (depth, .mk k p cs) :: outlineBelow (depth + 1) cs

/-- The nodes of the trees below a node. -/
def outlineBelow (depth : Nat) : List Node → List (Nat × Node)
  | [] => []
  | n :: ns => outline depth n ++ outlineBelow depth ns

end

theorem visit_append (ns ms : List Node) : visit (ns ++ ms) = visit ns ++ visit ms := by
  fun_induction visit ns with
  | case1 => simp
  | case2 k p cs rest ih =>
    rw [List.append_assoc] at ih
    rw [List.cons_append, visit, ih, List.cons_append]

/-- A walk is the root and then the walks of its children. -/
theorem walk_eq (n : Node) : n.walk = n :: n.children.flatMap walk := by
  have hvisit (ns : List Node) : visit ns = ns.flatMap walk := by
    induction ns with
    | nil => simp [visit]
    | cons n ns ih =>
      rw [← List.singleton_append, visit_append, ih, List.flatMap_append,
        List.flatMap_singleton, walk]
  rcases n with ⟨k, p, cs⟩
  rw [walk, visit, List.append_nil, hvisit, children]

theorem walk_mk (k : Kind) (p : Payload) (cs : List Node) :
    walk (.mk k p cs) = .mk k p cs :: cs.flatMap walk :=
  walk_eq _

mutual

/-- An outline names the nodes of a tree in the order of a walk. -/
theorem map_outline (depth : Nat) : (n : Node) → (n.outline depth).map Prod.snd = n.walk
  | .mk k p cs => by rw [outline, walk_mk, List.map_cons, map_outlineBelow (depth + 1) cs]

theorem map_outlineBelow (depth : Nat) :
    (ns : List Node) → (outlineBelow depth ns).map Prod.snd = ns.flatMap walk
  | [] => by simp [outlineBelow]
  | n :: ns => by
    rw [outlineBelow, List.map_append, map_outline depth n, map_outlineBelow depth ns,
      List.flatMap_cons]

end

mutual

/-- A rendering has one line for each node of the outline. -/
theorem lines_eq (depth : Nat) :
    (n : Node) → lines (2 * depth) n = (n.outline depth).map fun e => line (2 * e.1) e.2
  | .mk k p cs => by
    have hindent : (2 : Int) * depth + 2 = 2 * ↑(depth + 1) := by omega
    rw [lines, outline, List.map_cons, hindent, linesBelow_eq (depth + 1) cs]

theorem linesBelow_eq (depth : Nat) :
    (ns : List Node) → linesBelow (2 * depth) ns = (outlineBelow depth ns).map fun e =>
      line (2 * e.1) e.2
  | [] => by simp [linesBelow, outlineBelow]
  | n :: ns => by
    rw [linesBelow, outlineBelow, List.map_append, lines_eq depth n, linesBelow_eq depth ns]

end

/-- The first label stands less deep than `depth`, if there is one. -/
def EndsAbove (depth : Nat) (labels : List (Nat × Kind × Payload)) : Prop :=
  ∀ l ∈ labels.head?, l.1 < depth

theorem head?_outline (depth : Nat) (n : Node) (rest : List (Nat × Kind × Payload)) :
    ((n.outline depth).map label ++ rest).head? = some (depth, n.kind, n.payload) := by
  rcases n with ⟨k, p, cs⟩
  simp [outline, label]

theorem endsAbove_outlineBelow {depth : Nat} {rest : List (Nat × Kind × Payload)}
    (hrest : EndsAbove depth rest)
    (ns : List Node) : EndsAbove (depth + 1) ((outlineBelow depth ns).map label ++ rest) := by
  cases ns with
  | nil =>
    intro l hl
    have habove := hrest l (by simpa [outlineBelow] using hl)
    omega
  | cons n ns =>
    intro l hl
    rw [outlineBelow, List.map_append, List.append_assoc, head?_outline] at hl
    simp [← Option.mem_some_iff.mp hl]

/-- No further tree begins where the labels end. -/
theorem outlineBelow_nil_ne_cons {depth : Nat} {rest : List (Nat × Kind × Payload)}
    (hrest : EndsAbove depth rest)
    (n : Node) (ns : List Node) (rest' : List (Nat × Kind × Payload)) :
    rest ≠ (outlineBelow depth (n :: ns)).map label ++ rest' := by
  rintro rfl
  rw [outlineBelow, List.map_append, List.append_assoc] at hrest
  have hdepth := hrest (depth, n.kind, n.payload) (head?_outline depth n _)
  omega

mutual

/-- Labels tell the tree that they begin with: it goes on as long as nodes are deeper than its
root. -/
theorem outline_inj {depth : Nat} {rest rest' : List (Nat × Kind × Payload)}
    (hrest : EndsAbove (depth + 1) rest) (hrest' : EndsAbove (depth + 1) rest') :
    (n m : Node) →
      (n.outline depth).map label ++ rest = (m.outline depth).map label ++ rest' → n = m ∧
      rest = rest'
  | .mk k p cs, .mk k' p' cs', h => by
    simp only [outline, List.map_cons, List.cons_append, List.cons.injEq, label, Prod.mk.injEq,
      true_and] at h
    obtain ⟨⟨hkind, hpayload⟩, hbelow⟩ := h
    obtain rfl : k = k' := hkind
    obtain rfl : p = p' := hpayload
    obtain ⟨rfl, htail⟩ := outlineBelow_inj hrest hrest' cs cs' hbelow
    exact ⟨rfl, htail⟩

theorem outlineBelow_inj {depth : Nat} {rest rest' : List (Nat × Kind × Payload)}
    (hrest : EndsAbove depth rest) (hrest' : EndsAbove depth rest') :
    (ns ms : List Node) →
      (outlineBelow depth ns).map label ++ rest = (outlineBelow depth ms).map label ++ rest' →
      ns = ms ∧ rest = rest'
  | [], [], h => by simpa [outlineBelow] using h
  | [], m :: ms, h => absurd h (outlineBelow_nil_ne_cons hrest m ms rest')
  | n :: ns, [], h => absurd h.symm (outlineBelow_nil_ne_cons hrest' n ns rest)
  | n :: ns, m :: ms, h => by
    simp only [outlineBelow, List.map_append, List.append_assoc] at h
    obtain ⟨rfl, hbelow⟩ := outline_inj (endsAbove_outlineBelow hrest ns)
      (endsAbove_outlineBelow hrest' ms) n m h
    obtain ⟨rfl, htail⟩ := outlineBelow_inj hrest hrest' ns ms hbelow
    exact ⟨rfl, htail⟩

end

/-! ### Renderings -/

theorem lines_zero (n : Node) : lines 0 n = ((n.outline 0).map label).map lineOf := by
  have hlines := lines_eq 0 n
  simp only [line_eq] at hlines
  simpa [Function.comp_def] using hlines

theorem isPrintable_of_mem_lines {n : Node} {l : Text} (hl : l ∈ lines 0 n) {c : CodePoint}
    (hc : c ∈ l) :
    Text.isPrintable c = true := by
  rw [lines_zero] at hl
  obtain ⟨label, -, rfl⟩ := List.mem_map.mp hl
  exact isPrintable_of_mem_lineOf hc

/-- The lines of a rendering are what stands between its line breaks. -/
theorem splitOn_render (n : Node) : n.render.splitOn Text.lineBreak = lines 0 n := by
  apply List.splitOn_intercalate
  · intro l hl hbreak
    exact absurd (isPrintable_of_mem_lines hl hbreak) (by decide)
  · cases n
    simp [lines]

theorem render_injective : Function.Injective render := by
  intro n m h
  have hlines : lines 0 n = lines 0 m := by rw [← splitOn_render, h, splitOn_render]
  rw [lines_zero, lines_zero] at hlines
  have hlabels := List.map_injective_iff.mpr lineOf_injective hlines
  have hends : EndsAbove (0 + 1) [] := by simp [EndsAbove]
  exact (outline_inj hends hends n m (by simpa using hlabels)).1

/-- What is shown of a tree is its rendering, if there is anything. -/
theorem render?_eq_some_iff {n : Node} {t : Text} :
    n.render? = some t ↔ n.isShowable = true ∧ n.render = t := by
  unfold render? renderAt?
  rw [Option.ite_none_right_eq_some, Option.some.injEq]
  rfl

/-- The text is a rendering of the tree. Its lines stand for the nodes of the tree, in the order of
a walk, each with the kind and the payload of its node, two blanks further in for each level, and
nothing in them but the line break ends a line. No other tree is rendered like this one. -/
structure HasRendering (n : Node) (t : Text) : Prop where
  lines : t.splitOn Text.lineBreak =
    (n.outline 0).map fun e => Text.blanks (2 * e.1) ++ e.2.heading
  printable : ∀ l ∈ t.splitOn Text.lineBreak, ∀ c ∈ l, Text.isPrintable c = true
  unique (m : Node) : m.render? = some t ↔ n = m

/-- **A rendering is faithful.** A walk is the root and then the walks of its children, and the
outline of a tree lists the nodes of a walk. A tree is shown exactly if all of its payloads can be,
and then as a rendering of it. -/
theorem render_faithful (n : Node) :
    n.walk = n :: n.children.flatMap walk ∧ (n.outline 0).map Prod.snd = n.walk ∧
      (n.render? = none ↔ n.isShowable = false) ∧
      ∀ t, n.render? = some t → n.HasRendering t := by
  refine ⟨walk_eq n, map_outline 0 n, ?_, fun t ht => ?_⟩
  · unfold render? renderAt?
    rw [ite_eq_right_iff, Bool.eq_false_iff]
    constructor
    · intro h hshown
      cases (h hshown)
    · intro h hshown
      exact absurd hshown h
  · obtain ⟨hshown, rfl⟩ := render?_eq_some_iff.mp ht
    refine ⟨?_, ?_, fun m => ?_⟩
    · rw [splitOn_render]
      have hlines := lines_eq 0 n
      simp only [line_eq_heading] at hlines
      simpa using hlines
    · rw [splitOn_render]
      intro l hl c hc
      exact isPrintable_of_mem_lines hl hc
    · rw [render?_eq_some_iff]
      constructor
      · rintro ⟨-, hrender⟩
        exact (render_injective hrender).symm
      · rintro rfl
        exact ⟨hshown, rfl⟩

/-- A local name, whose number is shown as it is and whose text is quoted. -/
def numberedName : Node :=
  .ofChildren .localDeclName [.mk .number (.index (-4)) [], .identifier "a: b\n".text]

theorem render_faithful_numberedName :
    numberedName.render? = some "LocalDeclName\n  Number: -4\n  Identifier: 'a: b\\n'".text ∧
      numberedName.HasRendering "LocalDeclName\n  Number: -4\n  Identifier: 'a: b\\n'".text := by
  have hrender : numberedName.render? =
      some "LocalDeclName\n  Number: -4\n  Identifier: 'a: b\\n'".text :=
    render?_eq_some_iff.mpr ⟨by decide +kernel, by decide +kernel⟩
  exact ⟨hrender, (render_faithful numberedName).2.2.2 _ hrender⟩

/-- An index of more digits than can be shown is not rendered. -/
theorem render?_longIndex : (Node.mk .index (.index (10 ^ Text.maxDigits)) []).render? = none := by
  decide +kernel

end Node

end SwiftABI
