import Renaming.SortedMap
import Renaming.Symbol

/-!
# Rename tables

A rename table gives new names to symbols, to parameters of a method by their index, and to
packages. A later entry replaces an earlier one with the same key.
-/

namespace Renaming

structure ParameterKey where
  method : Signature
  index : Nat
  deriving DecidableEq, Repr

instance : Key ParameterKey where
  before a b := decide (a.method < b.method) || (a.method == b.method && decide (a.index < b.index))
  irrefl a := by
    rw [decide_eq_false (String.lt_irrefl _), decide_eq_false (Nat.lt_irrefl _), Bool.and_false]
    rfl
  trans := by
    intro a b c hab hbc
    simp only [Bool.or_eq_true, Bool.and_eq_true, decide_eq_true_eq, beq_iff_eq] at *
    rcases hab with hab | ⟨hab, hi⟩ <;> rcases hbc with hbc | ⟨hbc, hj⟩
    · exact .inl (String.lt_trans hab hbc)
    · exact .inl (hbc ▸ hab)
    · exact .inl (hab ▸ hbc)
    · exact .inr ⟨hab.trans hbc, Nat.lt_trans hi hj⟩
  eq_of_not_before := by
    intro a b hab hba
    simp only [Bool.or_eq_false_iff, Bool.and_eq_false_iff, decide_eq_false_iff_not,
      beq_eq_false_iff_ne, String.not_lt] at *
    have hm : a.method = b.method := String.le_antisymm hba.1 hab.1
    have hi : a.index = b.index := by
      rcases hab.2 with h | h
      · exact absurd hm h
      · rcases hba.2 with h' | h'
        · exact absurd hm.symm h'
        · omega
    cases a; cases b; simp_all

structure RenameTable where
  symbols : SortedMap Signature String := .empty
  params : SortedMap ParameterKey String := .empty
  packages : SortedMap String String := .empty
  deriving DecidableEq, Inhabited

/-- One entry for a table. -/
inductive Renamed where
  | symbol (old new : String)
  | parameter (method : Signature) (index : Nat) (new : String)
  | package (old new : String)
  deriving DecidableEq, Repr

namespace RenameTable

def empty : RenameTable := {}

def insert (t : RenameTable) : Renamed → RenameTable
  | .symbol old new => { t with symbols := t.symbols.insert old new }
  | .parameter method index new => { t with params := t.params.insert ⟨method, index⟩ new }
  | .package old new => { t with packages := t.packages.insert old new }

def insertAll (t : RenameTable) (entries : List Renamed) : RenameTable := entries.foldl insert t

def symbol? (t : RenameTable) (old : Signature) : Option String := t.symbols.get? old

def parameter? (t : RenameTable) (method : Signature) (index : Nat) : Option String :=
  t.params.get? ⟨method, index⟩

def package? (t : RenameTable) (old : String) : Option String := t.packages.get? old

def size (t : RenameTable) : Nat := t.symbols.size + t.params.size + t.packages.size

def isEmpty (t : RenameTable) : Bool := t.size == 0

/-- The entries of a table: packages, then symbols, then parameters, each in ascending order. -/
def toList (t : RenameTable) : List Renamed :=
  t.packages.entries.map (fun (old, new) => .package old new) ++
    t.symbols.entries.map (fun (old, new) => .symbol old new) ++
    t.params.entries.map (fun (key, new) => .parameter key.method key.index new)

end RenameTable

end Renaming
