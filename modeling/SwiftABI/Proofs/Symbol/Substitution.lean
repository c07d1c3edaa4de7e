/-
  The substitution table and the entries that have been made in it.

  An entry is a node with the key that it was registered under. The table keeps only the nodes and
  the first number of each key, which is all that can be asked of the entries: `Indexes` says that a
  list of entries is answered for by a table. A number is looked up in the list of nodes
  (`node?_cases`), and a new entry is added at the end (`Indexes.insert`).
-/
import SwiftABI.Symbol.Substitution

namespace SwiftABI

/-! ### Keys -/

/-- The text that a name is known by, in which operators are spelled with letters. -/
def Node.spelling? (n : Node) : Option Text :=
  n.text?.map fun t => if n.kind ∈ Kind.operators then Operator.translate t else t

/-- Only names have a key by their name, which is the text that they are known by. -/
theorem SubstitutionKey.ofNode_true_eq_ok_iff {n : Node} {key : SubstitutionKey} :
    ofNode n true = .ok key ↔
    n.kind ∈ Kind.identifierLike ∧ ∃ t, n.spelling? = some t ∧ key = .name t := by
  by_cases hk : n.kind ∈ Kind.identifierLike
  · unfold ofNode Node.spelling? Node.text
    rw [if_pos rfl, if_pos hk]
    cases n.text? with
    | none => simp [bind, Except.bind]
    | some t => simp [bind, Except.bind, hk, pure, Except.pure, eq_comm]
  · simp [ofNode, hk]

namespace SubstitutionTable

variable {t t' : SubstitutionTable} {n : Node} {byName : Bool} {key : SubstitutionKey}

/-! ### Numbers -/

/-- A number that is not negative has a node, or is beyond the end of the table. -/
theorem node?_cases (t : SubstitutionTable) {i : Int} (h : 0 ≤ i) :
    (∃ n, t.nodes[i.toNat]? = some n ∧ t.node? i = .ok n) ∨
      (t.length : Int) ≤ i ∧ t.node? i = .error ⟨i, t.length⟩ := by
  unfold node?
  rw [if_neg (by omega)]
  rcases hi : t.nodes[i.toNat]? with _ | n
  · have hlength := List.getElem?_eq_none_iff.mp hi
    exact .inr ⟨by unfold length; omega, rfl⟩
  · exact .inl ⟨n, rfl, rfl⟩

theorem node?_eq_ok {i : Nat} (h : t.nodes[i]? = some n) : t.node? i = .ok n := by
  rcases t.node?_cases (Int.natCast_nonneg i) with ⟨m, hm, hnode⟩ | ⟨hlength, -⟩
  · rw [Int.toNat_natCast, h] at hm
    cases hm
    exact hnode
  · obtain ⟨hi, -⟩ := List.getElem?_eq_some_iff.mp h
    unfold length at hlength
    omega

/-! ### Registering -/

/-- What becomes of a table when a node is registered: only a node that can be referred to and has a
key is added. -/
theorem run_enter (t : SubstitutionTable) (n : Node) (byName : Bool) :
    (enter n byName).run t =
      if n.kind.isSubstitutable then
        match SubstitutionKey.ofNode n byName with
        | .ok key => (.ok t.length, t.insert n key)
        | .error e => (.error e, t)
      else (.error (ShapeFault.notSubstitutable.inKind n.kind), t) := by
  unfold enter
  cases n.kind.isSubstitutable with
  | false => rfl
  | true => rcases SubstitutionKey.ofNode n byName with e | key <;> rfl

/-- What has a key is looked for by it. -/
theorem lookup_eq_map (t : SubstitutionTable) (n : Node) (byName : Bool) :
    t.lookup n byName = (SubstitutionKey.ofNode n byName).map t.find? := by
  unfold lookup
  cases SubstitutionKey.ofNode n byName <;> rfl

/-- A node that can be referred to is registered under its key. -/
theorem register_of_key (hk : n.kind.isSubstitutable = true)
    (hkey : SubstitutionKey.ofNode n byName = .ok key) :
    t.register n byName = .ok (t.insert n key) := by
  unfold register
  rw [run_enter, if_pos hk, hkey]

/-- A node that is registered has a key. -/
theorem exists_key_of_register (h : t.register n byName = .ok t') :
    ∃ key, SubstitutionKey.ofNode n byName = .ok key ∧ t' = t.insert n key := by
  unfold register at h
  rw [run_enter] at h
  cases hk : n.kind.isSubstitutable with
  | false =>
    rw [hk] at h
    cases h
  | true =>
    rcases hkey : SubstitutionKey.ofNode n byName with e | key
    · rw [hk, hkey] at h
      cases h
    · rw [hk, hkey] at h
      exact ⟨key, rfl, (Except.ok.inj h).symm⟩

theorem nodes_setFirst (t : SubstitutionTable) (key : SubstitutionKey) (i : Nat) :
    (t.setFirst key i).nodes = t.nodes := by
  unfold setFirst
  split <;> rfl

theorem nodes_insert (t : SubstitutionTable) (n : Node) (key : SubstitutionKey) :
    (t.insert n key).nodes = t.nodes ++ [n] := nodes_setFirst (t.push n) key t.length

/-- A key keeps the number that it has, and only the key that has been added can get a new one. -/
theorem find?_insert (t : SubstitutionTable) (n : Node) (key key' : SubstitutionKey) :
    (t.insert n key).find? key' = (t.find? key').or
      (if key = key' then some t.length else none) := by
  unfold insert setFirst
  rcases hfound : t.find? key with _ | j
  · have hpush : (t.push n).find? key = none := hfound
    rw [hpush]
    show List.lookup key' (t.firstNumbers ++ [(key, t.length)]) = (t.firstNumbers.lookup key').or _
    rw [List.lookup_append]
    by_cases heq : key = key'
    · simp [heq]
    · have hne : (key' == key) = false := by simpa using fun h => heq h.symm
      rw [List.lookup_cons, hne, List.lookup_nil, if_neg heq]
  · have hpush : (t.push n).find? key = some j := hfound
    rw [hpush]
    show t.find? key' = _
    by_cases heq : key = key'
    · rw [← heq, hfound]
      rfl
    · rw [if_neg heq, Option.or_none]

/-- A registered node is the last one. -/
theorem nodes_register (h : t.register n byName = .ok t') : t'.nodes = t.nodes ++ [n] := by
  obtain ⟨key, -, rfl⟩ := exists_key_of_register h
  exact nodes_insert t n key

/-! ### Entries -/

/-- The table answers for a list of entries, nodes with their keys: it has the nodes in their order,
and for each key the number of the first entry that has it. -/
structure Indexes (t : SubstitutionTable) (entries : List (Node × SubstitutionKey)) : Prop where
  nodes : t.nodes = entries.map Prod.fst
  find? (key : SubstitutionKey) : t.find? key = entries.findIdx? fun entry => entry.2 = key

namespace Indexes

variable {entries : List (Node × SubstitutionKey)} {i : Nat}

theorem nil : Indexes {} [] := ⟨rfl, fun _ => rfl⟩

theorem length (h : t.Indexes entries) : t.length = entries.length := by
  unfold SubstitutionTable.length
  rw [h.nodes, List.length_map]

/-- A new entry is the last one. It is found by its key unless there is one with this key
already. -/
theorem insert (h : t.Indexes entries) (n : Node) (key : SubstitutionKey) :
    (t.insert n key).Indexes (entries ++ [(n, key)]) := by
  refine ⟨by rw [nodes_insert, h.nodes, List.map_append]; rfl, fun key' => ?_⟩
  rw [find?_insert, h.find?, h.length, List.findIdx?_append]
  by_cases heq : key = key' <;> simp [heq]

/-- The number of a key is that of an entry which has it. -/
theorem getElem?_of_find? (h : t.Indexes entries) (hfind : t.find? key = some i) :
    ∃ n, entries[i]? = some (n, key) := by
  rw [h.find?] at hfind
  obtain ⟨hi, hentry, -⟩ := List.findIdx?_eq_some_iff_getElem.mp hfind
  have hkey : entries[i].2 = key := of_decide_eq_true hentry
  exact ⟨entries[i].1, by rw [List.getElem?_eq_getElem hi, ← hkey]⟩

end Indexes

end SubstitutionTable

end SwiftABI
