import VertexOS.Library.Transitions

namespace Library.FileTree
open Library.Transitions

/-! Trees of directories and files. -/

/-- The directory a node is in, its name and its rights, and the bytes of a file; a directory has
none. -/
structure Node (ι ν ρ β : Type) where
  parent : ι
  name : ν
  rights : ρ
  bytes : Option (List β)

/-- The nodes by their ids. -/
abbrev Tree (ι ν ρ β : Type) := ι → Option (Node ι ν ρ β)

/-- One component of a path. -/
inductive Move (ν : Type) where
  | here
  | up
  | down (name : ν)

variable {ι ν ρ β : Type} {t : Tree ι ν ρ β}

namespace Tree

inductive Leads (t : Tree ι ν ρ β) : ι → Move ν → ι → Prop
  | here (i : ι) : Leads t i .here i
  | up {i : ι} {n : Node ι ν ρ β} (h : t i = some n) : Leads t i .up n.parent
  | down {i : ι} {n : Node ι ν ρ β} (h : t i = some n) : Leads t n.parent (.down n.name) i

def IsDir (t : Tree ι ν ρ β) (i : ι) : Prop := ∃ n, t i = some n ∧ n.bytes = none

/-- A move that goes down into directories only. -/
def Enters (t : Tree ι ν ρ β) (i : ι) (m : Move ν) (j : ι) : Prop :=
  t.Leads i m j ∧ ∀ name, m = .down name → t.IsDir j

/-- A new node in the directory that the moves enter, under a name that is free there. -/
inductive Creates [DecidableEq ι] (t : Tree ι ν ρ β) (start : ι) (moves : List (Move ν)) (name : ν)
    (rights : ρ) (bytes : Option (List β)) : Tree ι ν ρ β → Option ι → Prop
  | made {d i : ι} (hd : Run t.Enters start moves d)
      (hname : ∀ j n, t j = some n → n.parent = d → n.name ≠ name) (hfree : t i = none) :
      Creates t start moves name rights bytes
        (Function.update t i (some ⟨d, name, rights, bytes⟩)) (some i)
  | lost (h : ∀ d, ¬Run t.Enters start moves d) :
      Creates t start moves name rights bytes t none
  | taken {d j : ι} {n : Node ι ν ρ β} (hd : Run t.Enters start moves d) (hj : t j = some n)
      (hparent : n.parent = d) (hname : n.name = name) :
      Creates t start moves name rights bytes t none
  | full (h : ∀ i, t i ≠ none) : Creates t start moves name rights bytes t none

/-- Files go, and empty directories other than the root. -/
inductive Removes [DecidableEq ι] (t : Tree ι ν ρ β) (root start : ι) (moves : List (Move ν)) :
    Tree ι ν ρ β → Bool → Prop
  | gone {i : ι} (h : Run t.Leads start moves i) (hroot : i ≠ root)
      (hempty : ∀ j n, t j = some n → n.parent ≠ i) :
      Removes t root start moves (Function.update t i none) true
  | kept (h : ∀ i, Run t.Leads start moves i → i = root ∨ ∃ j n, t j = some n ∧ n.parent = i) :
      Removes t root start moves t false

end Tree

/-- Bytes written from a place on; `gap` stands between the old end and the place. -/
def overwrite (old gap data : List β) (offset : Nat) : List β :=
  old.take offset ++ gap ++ data ++ old.drop (offset + data.length)

/-- Where each byte comes from. -/
theorem getElem?_overwrite {old gap data : List β} {offset : Nat}
    (hgap : gap.length = offset - old.length) (k : Nat) :
    (overwrite old gap data offset)[k]? =
      if offset ≤ k ∧ k < offset + data.length then data[k - offset]?
      else if k < offset ∧ old.length ≤ k then gap[k - old.length]? else old[k]? := by
  have hfront : (old.take offset ++ gap).length = offset := by
    simp only [List.length_append, List.length_take, hgap]
    omega
  rw [overwrite]
  by_cases hlow : k < offset
  · rw [if_neg (by omega), List.append_assoc, List.getElem?_append_left (by omega)]
    by_cases hold : old.length ≤ k
    · have htake : (old.take offset).length = old.length := by
        rw [List.length_take]
        omega
      rw [if_pos ⟨hlow, hold⟩, List.getElem?_append_right (by omega), htake]
    · have htake : k < (old.take offset).length := by
        rw [List.length_take]
        omega
      rw [if_neg (by omega), List.getElem?_append_left htake, List.getElem?_take, if_pos hlow]
  · have hnot : ¬(k < offset ∧ old.length ≤ k) := fun h => hlow h.1
    by_cases hmid : k < offset + data.length
    · have hin : k < (old.take offset ++ gap ++ data).length := by
        rw [List.length_append]
        omega
      rw [if_pos ⟨by omega, hmid⟩, List.getElem?_append_left hin,
        List.getElem?_append_right (by omega), hfront]
    · have hout : (old.take offset ++ gap ++ data).length ≤ k := by
        rw [List.length_append]
        omega
      rw [if_neg (by omega), if_neg hnot, List.getElem?_append_right hout, List.getElem?_drop]
      congr 1
      rw [List.length_append]
      omega

end Library.FileTree
