import LibNekit.Source.Runtime

/-!
# Trie

`trie.h`. A node has one child for each character of a window that starts at `offset`.
Characters are signed, so bytes from 128 on are below every window.
-/
namespace LibNekit.Source

/-- `char` -/
def charValue (byte : UInt8) : Int := if byte < 128 then byte.toNat else (byte.toNat : Int) - 256

inductive TrieNode (nodeSize : Nat) where
  | mk (nodes : Fin nodeSize → Option (TrieNode nodeSize)) (ends : Bool)

namespace TrieNode

variable {nodeSize : Nat}

def nodes : TrieNode nodeSize → Fin nodeSize → Option (TrieNode nodeSize)
  | mk nodes _ => nodes

/-- `end_` -/
def ends : TrieNode nodeSize → Bool
  | mk _ ends => ends

/-- `nodes_[index]` -/
def child (node : TrieNode nodeSize) (index : Int) : Checked (Option (TrieNode nodeSize)) :=
  if bound : 0 ≤ index ∧ index.toNat < nodeSize then .ok (node.nodes ⟨index.toNat, bound.2⟩)
  else .error .outOfBounds

/-- `TrieNode()` -/
def empty : TrieNode nodeSize := mk (fun _ => none) false

/-- `nodes_[index] = child` -/
def setChild (node : TrieNode nodeSize) (index : Int) (child : TrieNode nodeSize) : Checked (TrieNode nodeSize) :=
  if bound : 0 ≤ index ∧ index.toNat < nodeSize then
    .ok (mk (fun i => if i = ⟨index.toNat, bound.2⟩ then some child else node.nodes i) node.ends)
  else .error .outOfBounds

end TrieNode

/-- `Trie<char, offset, node_size, reverse>` -/
structure Trie (offset : Int) (nodeSize : Nat) (reverse : Bool) where
  root : TrieNode nodeSize

namespace Trie

variable {offset : Int} {nodeSize : Nat} {reverse : Bool}

/-- The order in which the characters are looked at. -/
def inOrder (reverse : Bool) (text : Bytes) : Bytes := if reverse then text.reverse else text

def outside (offset : Int) (nodeSize : Nat) (ch : UInt8) : Bool :=
  charValue ch < offset || charValue ch ≥ offset + nodeSize

/-- `Trie()` -/
def make : Trie offset nodeSize reverse := ⟨.empty⟩

/-- The loop of `AddPrefix`, and the end mark behind it. -/
def insert (offset : Int) : Bytes → TrieNode nodeSize → Checked (TrieNode nodeSize)
  | [], currentNode => .ok (.mk currentNode.nodes true)
  | ch :: rest, currentNode => do
    let child ← currentNode.child (charValue ch - offset)
    let child ← insert offset rest (child.getD .empty)
    currentNode.setChild (charValue ch - offset) child

/-- `AddPrefix(prefix)` -/
def addPrefix (trie : Trie offset nodeSize reverse) (text : Bytes) : Checked (Bool × Trie offset nodeSize reverse) :=
  if text.length = 0 then .ok (false, trie)
  else if text.any (outside offset nodeSize) then .ok (false, trie)
  else do
    let root ← insert offset (inOrder reverse text) trie.root
    return (true, ⟨root⟩)

/-- The loop of `MatchPrefixWith`. -/
def matchFrom (offset : Int) : Bytes → TrieNode nodeSize → Checked Bool
  | [], _ => .ok false
  | ch :: rest, currentNode =>
    if outside offset nodeSize ch then .ok false
    else do
      match ← currentNode.child (charValue ch - offset) with
      | none => return false
      | some child => if child.ends then return true else matchFrom offset rest child

def matchPrefixWith (trie : Trie offset nodeSize reverse) (literal : Bytes) : Checked Bool :=
  if literal.length = 0 then .ok false
  else matchFrom offset (inOrder reverse literal) trie.root

/-- A character in the window is the index of a child. -/
theorem child_ok {ch : UInt8} (inside : outside offset nodeSize ch = false) (node : TrieNode nodeSize) :
    ∃ child, node.child (charValue ch - offset) = .ok child := by
  rw [outside, Bool.or_eq_false_iff, decide_eq_false_iff_not, decide_eq_false_iff_not] at inside
  refine ⟨_, dif_pos ⟨by omega, by omega⟩⟩

theorem matchFrom_ok (text : Bytes) (node : TrieNode nodeSize) : ∃ found, matchFrom offset text node = .ok found := by
  induction text generalizing node with
  | nil => exact ⟨false, rfl⟩
  | cons ch rest ih =>
    rw [matchFrom]
    by_cases inside : outside offset nodeSize ch = true
    · exact ⟨false, if_pos inside⟩
    · obtain ⟨child, found⟩ := child_ok (Bool.eq_false_iff.mpr inside) node
      rw [if_neg inside, found, ok_bind]
      cases child with
      | none => exact ⟨false, rfl⟩
      | some child =>
        by_cases ends : child.ends = true
        · exact ⟨true, if_pos ends⟩
        · obtain ⟨answer, more⟩ := ih child
          exact ⟨answer, (if_neg ends).trans more⟩

theorem matchPrefixWith_ok (trie : Trie offset nodeSize reverse) (literal : Bytes) :
    ∃ found, trie.matchPrefixWith literal = .ok found := by
  by_cases empty : literal.length = 0
  · exact ⟨false, if_pos empty⟩
  · obtain ⟨found, matched⟩ := @matchFrom_ok offset nodeSize (inOrder reverse literal) trie.root
    exact ⟨found, (if_neg empty).trans matched⟩

end Trie

/-- `DomainTrie<reverse>`: the window from `'-'` to `'z'`. -/
abbrev DomainTrie (reverse : Bool) := Trie 0x2d 78 reverse

end LibNekit.Source
