import Renaming.Proofs.Store.Archive
import Renaming.Proofs.Store.Directory
import Renaming.Store.Opened

/-!
# Calls on opened stores

A store is used by a sequence of calls between opening and closing. What holds when it is opened and
is kept by every call holds after each run of them.
-/

namespace Renaming

/-- A call on an open store. A write comes with what the file system does to it. -/
inductive StoreCall where
  | enumerate
  | read (unit : String)
  | write (unit : String) (content : Bytes) (fault : Option WriteFault)
  deriving DecidableEq

inductive StoreAnswer where
  | ids (result : Except StoreError (List String))
  | content (result : Except StoreError Bytes)
  | written (result : Except StoreError Unit)
  deriving DecidableEq

namespace OpenedStore

def call (o : OpenedStore) : StoreCall → StoreAnswer × OpenedStore
  | .enumerate => (.ids o.enumerate, o)
  | .read unit => (.content (o.readBytes unit), o)
  | .write unit content fault =>
    let (result, left) := o.writeBytesWith fault unit content
    (.written result, left)

/-- The answers to a sequence of calls and the store that is left. -/
def run (o : OpenedStore) : List StoreCall → List StoreAnswer × OpenedStore
  | [] => ([], o)
  | c :: rest =>
    let (answer, next) := o.call c
    let (answers, left) := next.run rest
    (answer :: answers, left)

theorem run_cons (o : OpenedStore) (c : StoreCall) (rest : List StoreCall) :
    o.run (c :: rest) =
      ((o.call c).1 :: ((o.call c).2.run rest).1, ((o.call c).2.run rest).2) := rfl

theorem run_invariant {P : OpenedStore → Prop} {calls : List StoreCall}
    (hstep : ∀ o, ∀ c ∈ calls, P o → P (o.call c).2) {o : OpenedStore} (h : P o) :
    P (o.run calls).2 := by
  induction calls generalizing o with
  | nil => exact h
  | cons c rest ih =>
    rw [run_cons]
    exact ih (fun o c hc => hstep o c (List.mem_cons_of_mem _ hc))
      (hstep o c List.mem_cons_self h)

end OpenedStore

/-- What a call does to a directory that is open in place: nothing, unless it is a write by an id
that is accepted, which then leads down from the root. -/
theorem DirectoryStore.call_cases {o : OpenedStore} {s : DirectoryStore} {r : Location}
    (hs : o.store = .directory s) (hat : s.IsAt o.tree r) (hmode : s.mode = .inPlace)
    (c : StoreCall) :
    (o.call c).2 = o ∨ ∃ unit content fault result, c = .write unit content fault ∧
      UnitId.GoesDown unit ∧ Outcome s o.tree r unit content result ∧
      (o.call c).2 = ⟨.directory result.2.1, result.2.2⟩ := by
  obtain ⟨store, t⟩ := o
  dsimp only at hs hat
  subst hs
  cases c with
  | enumerate => exact .inl rfl
  | read unit => exact .inl rfl
  | write unit content fault =>
    by_cases hvalid : UnitId.isValid unit = true
    · have hunit := UnitId.goesDown_of_isValid hvalid
      have ho := outcome_writeBytesWith fault hat hmode hunit content
      refine .inr ⟨unit, content, fault, s.writeBytesWith fault t unit content, rfl, hunit, ho, ?_⟩
      simp only [OpenedStore.call, OpenedStore.writeBytesWith]
    · have hrefused : s.writeBytesWith fault t unit content =
          (.error (.invalidUnitId unit), s, t) := by
        simp [writeBytesWith, hat.isOpen, hmode, StoreMode.isWritable, hvalid]
      left
      simp only [OpenedStore.call, OpenedStore.writeBytesWith, hrefused]

namespace DirectoryStore

variable {r : Location} {o : OpenedStore}

/-- A directory that is open in place, with its root at a location. -/
def InPlaceAt (r : Location) (o : OpenedStore) : Prop :=
  ∃ s, o.store = .directory s ∧ s.IsAt o.tree r ∧ s.mode = .inPlace

theorem InPlaceAt.call (h : InPlaceAt r o) (c : StoreCall) :
    InPlaceAt r (o.call c).2 := by
  obtain ⟨s, hs, hat, hmode⟩ := h
  obtain hsame | ⟨_, _, _, _, -, hunit, ho, hleft⟩ := call_cases hs hat hmode c
  · rw [hsame]
    exact ⟨s, hs, hat, hmode⟩
  · rw [hleft]
    exact ⟨_, rfl, ho.isAt hat hunit, ho.mode.trans hmode⟩

end DirectoryStore

end Renaming
