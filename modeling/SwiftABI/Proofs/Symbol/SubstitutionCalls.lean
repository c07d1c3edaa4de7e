/-
  Runs of calls on the substitution table.

  The table is a list of nodes beside a list of numbers, and every operation works on both. To its
  users it is one list, that of the entries with the keys that they were registered under
  (`Answered`): a number is a place in this list, and a key stands for the first place where it is
  found. Each call keeps the table and the list together (`follows_perform`), so they stay together
  along every run (`followed`). When two nodes have one key is said by `sharesKey_iff`.

  A number that is none of an entry is refused by a message that shows it. There is no such message
  for a number of too many digits, so that it is refused in another way (`Answered.unshowable`).
-/
import SwiftABI.Proofs.Symbol.Substitution

namespace SwiftABI

/-! ### Keys -/

namespace SubstitutionKey

variable {n m : Node} {byName byName' : Bool}

/-- A node has the same key as another one, each of them by its name or as a tree. -/
def SharesKey (n : Node) (byName : Bool) (m : Node) (byName' : Bool) : Prop :=
  ∃ key, ofNode n byName = .ok key ∧ ofNode m byName' = .ok key

/-- Nodes share a key if they are the same tree, or if both are names, of whatever kind, that are
known by the same text. -/
theorem sharesKey_iff : SharesKey n byName m byName' ↔
    byName = false ∧ byName' = false ∧ n = m ∨
      byName = true ∧ byName' = true ∧ n.kind ∈ Kind.identifierLike ∧ m.kind ∈ Kind.identifierLike ∧
        ∃ t, n.spelling? = some t ∧ m.spelling? = some t := by
  have htree (n : Node) (key : SubstitutionKey) : ofNode n false = .ok key ↔ key = .tree n := by
    simp [ofNode, eq_comm]
  unfold SharesKey
  cases byName <;> cases byName' <;> simp only [htree, ofNode_true_eq_ok_iff]
  · simp
  · simp
  · simp
  · constructor
    · rintro ⟨_, ⟨hn, t, ht, rfl⟩, hm, t', ht', heq⟩
      injection heq with heq
      exact .inr ⟨trivial, trivial, hn, hm, t, ht, heq ▸ ht'⟩
    · rintro (⟨h, -⟩ | ⟨-, -, hn, hm, t, ht, ht'⟩)
      · cases h
      · exact ⟨.name t, ⟨hn, t, ht, rfl⟩, hm, t, ht', rfl⟩

/-- An operator is known by the letters that spell it, as an identifier of these letters is. -/
example : SharesKey (.ofText .infixOperator ['+']) true (.identifier ['p']) true :=
  ⟨.name ['p'], rfl, rfl⟩

end SubstitutionKey

/-! ### Calls -/

/-- A call of an operation of the table. -/
inductive SubstitutionCall where
  | register (n : Node) (byName : Bool)
  | lookup (n : Node) (byName : Bool)
  | resolve (index : Int)
  | reset

/-- What a call gives. -/
inductive SubstitutionAnswer where
  | number (i : Nat)
  | found (i : Option Nat)
  | node (n : Node)
  | done
  | mismatch (e : ShapeMismatch)
  | unknown (u : UnknownSubstitution)
  /-- The refusal would show a number that has too many digits. -/
  | unshowable

namespace SubstitutionCall

open SubstitutionAnswer SubstitutionTable

/-- Makes the call. -/
def perform (t : SubstitutionTable) : SubstitutionCall → SubstitutionAnswer × SubstitutionTable
  | register n byName =>
    match (enter n byName).run t with
    | (.ok i, t') => (number i, t')
    | (.error e, t') => (mismatch e, t')
  | lookup n byName =>
    match t.lookup n byName with
    | .ok i => (found i, t)
    | .error e => (mismatch e, t)
  | resolve index =>
    match t.node? index with
    | .ok n => (node n, t)
    | .error u => (if u.isShowable then unknown u else unshowable, t)
  | reset => (done, t.reset)

/-- What the calls do with a list of entries, nodes with their keys, and what they give. -/
inductive Answered :
    List (Node × SubstitutionKey) → SubstitutionCall → SubstitutionAnswer →
      List (Node × SubstitutionKey) → Prop where
  | registered {entries n byName key} (hk : n.kind.isSubstitutable = true)
    (hkey : SubstitutionKey.ofNode n byName = .ok key) :
    Answered entries (register n byName) (number entries.length) (entries ++ [(n, key)])
  | notSubstitutable {entries n byName} (hk : n.kind.isSubstitutable = false) :
    Answered entries (register n byName)
      (mismatch (ShapeFault.notSubstitutable.inKind n.kind)) entries
  | nameless {entries n byName e} (hk : n.kind.isSubstitutable = true)
    (hkey : SubstitutionKey.ofNode n byName = .error e) :
    Answered entries (register n byName) (mismatch e) entries
  | found {entries n byName key m i} (hkey : SubstitutionKey.ofNode n byName = .ok key)
    (hentry : entries[i]? = some (m, key))
      (hleast : ∀ j < i, ∀ entry, entries[j]? = some entry → entry.2 ≠ key) :
    Answered entries (lookup n byName) (found (some i)) entries
  | missing {entries n byName key} (hkey : SubstitutionKey.ofNode n byName = .ok key)
    (hnone : ∀ entry ∈ entries, entry.2 ≠ key) :
      Answered entries (lookup n byName) (found none) entries
  | namelessLookup {entries n byName e} (hkey : SubstitutionKey.ofNode n byName = .error e) :
    Answered entries (lookup n byName) (mismatch e) entries
  | resolved {entries n key} {index : Int} (hindex : 0 ≤ index)
    (hentry : entries[index.toNat]? = some (n, key)) :
      Answered entries (resolve index) (node n) entries
  | outside {entries} {index : Int} (hindex : index < 0 ∨ (entries.length : Int) ≤ index)
    (hshown : (UnknownSubstitution.mk index entries.length).isShowable = true) :
    Answered entries (resolve index) (unknown ⟨index, entries.length⟩) entries
  | unshowable {entries} {index : Int} (hindex : index < 0 ∨ (entries.length : Int) ≤ index)
    (hshown : (UnknownSubstitution.mk index entries.length).isShowable = false) :
    Answered entries (resolve index) unshowable entries
  | reset {entries} : Answered entries reset done []

/-- What a call does to a table, it does to the list of entries that the table answers for, and it
gives what it gives for the list. If it refuses a node, the table is not touched. -/
structure Follows (t : SubstitutionTable) (entries : List (Node × SubstitutionKey))
    (call : SubstitutionCall) (entries' : List (Node × SubstitutionKey)) : Prop where
  answered : Answered entries call (call.perform t).1 entries'
  indexes : (call.perform t).2.Indexes entries'
  untouched (e : ShapeMismatch) (h : (call.perform t).1 = mismatch e) : (call.perform t).2 = t

/-- Calls that are made one after the other, each from the table that the one before has left,
follow what they do to a list of entries. -/
inductive Followed : SubstitutionTable → List (Node × SubstitutionKey) → List SubstitutionCall →
      Prop where
  | nil (t : SubstitutionTable) (entries : List (Node × SubstitutionKey)) : Followed t entries []
  | cons {t : SubstitutionTable} {entries entries' : List (Node × SubstitutionKey)}
    {call : SubstitutionCall} {calls : List SubstitutionCall} (h : Follows t entries call entries')
    (hrest : Followed (call.perform t).2 entries' calls) : Followed t entries (call :: calls)

variable {t : SubstitutionTable} {entries : List (Node × SubstitutionKey)}

/-! ### One call -/

private theorem Follows.of_unchanged {call : SubstitutionCall} {answer : SubstitutionAnswer}
    (h : t.Indexes entries)
    (hperform : call.perform t = (answer, t)) (hanswered : Answered entries call answer entries) :
    Follows t entries call entries :=
  ⟨by rwa [hperform], by rwa [hperform], fun _ _ => by rw [hperform]⟩

private theorem follows_register (h : t.Indexes entries) (n : Node) (byName : Bool) :
    ∃ entries', Follows t entries (register n byName) entries' := by
  have hrun := run_enter t n byName
  cases hk : n.kind.isSubstitutable with
  | false =>
    rw [hk] at hrun
    exact ⟨entries, .of_unchanged h (by rw [perform, hrun]; rfl) (.notSubstitutable hk)⟩
  | true =>
    rcases hkey : SubstitutionKey.ofNode n byName with e | key
    · rw [hk, hkey] at hrun
      exact ⟨entries, .of_unchanged h (by rw [perform, hrun]; rfl) (.nameless hk hkey)⟩
    · rw [hk, hkey] at hrun
      have hperform : (register n byName).perform t = (number entries.length, t.insert n key) := by
        rw [perform, hrun, ← h.length]
        rfl
      refine ⟨entries ++ [(n, key)], ?_, ?_, fun e he => ?_⟩
      · rw [hperform]
        exact .registered hk hkey
      · rw [hperform]
        exact h.insert n key
      · rw [hperform] at he
        cases he

/-- The first place of a key in a list is the least one. -/
private theorem answered_lookup {n : Node} {byName : Bool} {key : SubstitutionKey}
    (hkey : SubstitutionKey.ofNode n byName = .ok key) :
    Answered entries (lookup n byName)
      (found (entries.findIdx? fun entry => entry.2 = key)) entries := by
  rcases hfind : entries.findIdx? (fun entry => entry.2 = key) with _ | i
  · rw [hfind]
    refine .missing hkey fun entry hentry heq => ?_
    have hother := List.findIdx?_eq_none_iff.mp hfind entry hentry
    exact of_decide_eq_false hother heq
  · obtain ⟨hi, hentry, hleast⟩ := List.findIdx?_eq_some_iff_getElem.mp hfind
    have hfirst : entries[i].2 = key := of_decide_eq_true hentry
    rw [hfind]
    refine .found (m := entries[i].1) hkey ?_ fun j hj entry hentry heq => ?_
    · rw [List.getElem?_eq_getElem hi, ← hfirst]
    · obtain ⟨hlt, hget⟩ := List.getElem?_eq_some_iff.mp hentry
      rw [← hget] at heq
      exact hleast j hj (decide_eq_true heq)

private theorem follows_lookup (h : t.Indexes entries) (n : Node) (byName : Bool) :
    Follows t entries (lookup n byName) entries := by
  rcases hkey : SubstitutionKey.ofNode n byName with e | key
  · exact .of_unchanged h (by rw [perform, t.lookup_eq_map, hkey]; rfl) (.namelessLookup hkey)
  · have hperform : (lookup n byName).perform t = (found (t.find? key), t) := by
      rw [perform, t.lookup_eq_map, hkey]
      rfl
    rw [h.find?] at hperform
    exact .of_unchanged h hperform (answered_lookup hkey)

/-- A number that is none of an entry is refused, in one way or the other. -/
private theorem follows_outside (h : t.Indexes entries) {index : Int}
    (hindex : index < 0 ∨ (entries.length : Int) ≤ index)
    (hnode : t.node? index = .error ⟨index, entries.length⟩) :
    Follows t entries (resolve index) entries := by
  cases hshown : (UnknownSubstitution.mk index entries.length).isShowable with
  | true =>
    have hperform : (resolve index).perform t = (unknown ⟨index, entries.length⟩, t) := by
      rw [perform, hnode]
      simp only [hshown, if_true]
    exact .of_unchanged h hperform (.outside hindex hshown)
  | false =>
    have hperform : (resolve index).perform t = (unshowable, t) := by
      rw [perform, hnode]
      simp only [hshown, Bool.false_eq_true, if_false]
    exact .of_unchanged h hperform (.unshowable hindex hshown)

private theorem follows_resolve (h : t.Indexes entries) (index : Int) :
    Follows t entries (resolve index) entries := by
  by_cases hnegative : index < 0
  · refine follows_outside h (.inl hnegative) ?_
    rw [node?, if_pos hnegative, ← h.length]
  · have hindex : 0 ≤ index := Int.not_lt.mp hnegative
    rcases t.node?_cases hindex with ⟨n, hn, hnode⟩ | ⟨hlength, hnode⟩
    · rw [h.nodes, List.getElem?_map, Option.map_eq_some_iff] at hn
      obtain ⟨⟨m, key⟩, hentry, rfl⟩ := hn
      exact .of_unchanged h (by rw [perform, hnode]) (.resolved hindex hentry)
    · rw [h.length] at hlength hnode
      exact follows_outside h (.inr hlength) hnode

/-- Every call follows what it does to the entries. -/
theorem follows_perform (h : t.Indexes entries) (call : SubstitutionCall) :
    ∃ entries', Follows t entries call entries' := by
  cases call with
  | register n byName => exact follows_register h n byName
  | lookup n byName => exact ⟨entries, follows_lookup h n byName⟩
  | resolve index => exact ⟨entries, follows_resolve h index⟩
  | reset => exact ⟨[], .reset, .nil, nofun⟩

/-! ### Runs -/

/-- Every run of calls follows what they do to the entries that the table has at its beginning. -/
theorem followed (calls : List SubstitutionCall) (h : t.Indexes entries) :
    Followed t entries calls := by
  induction calls generalizing t entries with
  | nil => exact .nil t entries
  | cons call calls ih =>
    obtain ⟨entries', hfollows⟩ := follows_perform h call
    exact .cons hfollows (ih hfollows.indexes)

/-- A new table is a list of entries with keys, whatever calls are made of it, and nodes share a key
if they are equal trees or names that are known by the same text. -/
theorem keyedEntries (calls : List SubstitutionCall) : Followed {} [] calls ∧
    ∀ n m byName byName', SubstitutionKey.SharesKey n byName m byName' ↔
      byName = false ∧ byName' = false ∧ n = m ∨
        byName = true ∧ byName' = true ∧ n.kind ∈ Kind.identifierLike ∧
        m.kind ∈ Kind.identifierLike ∧
          ∃ t, n.spelling? = some t ∧ m.spelling? = some t :=
  ⟨followed calls .nil, fun _ _ _ _ => SubstitutionKey.sharesKey_iff⟩

end SubstitutionCall

end SwiftABI
