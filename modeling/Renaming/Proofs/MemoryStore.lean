import Renaming.Proofs.SortedMap
import Renaming.Store

/-!
# Stores in memory

What the operations of a store do when its units are in memory and their ids are valid.
-/

namespace Renaming

namespace MemoryStore

/-- The store after a unit was written. -/
def put (s : MemoryStore) (unit : String) (content : Bytes) : MemoryStore :=
  { s with units := s.units.insert unit content }

@[simp] theorem get?_put_self (s : MemoryStore) (unit : String) (content : Bytes) :
    (s.put unit content).units.get? unit = some content :=
  SortedMap.get?_insert_self s.units unit content

theorem get?_put_of_ne (s : MemoryStore) {unit other : String} (content : Bytes)
    (h : other ≠ unit) : (s.put unit content).units.get? other = s.units.get? other :=
  SortedMap.get?_insert_of_ne s.units content h

theorem writeBytes_of_valid (s : MemoryStore) {unit : String} (content : Bytes)
    (h : UnitId.isValid unit = true) :
    SourceStore.writeBytes s unit content = (.ok (), s.put unit content) := by
  change s.writeBytes unit content = _
  rw [writeBytes, if_pos h, put]

theorem enumerate_of_open {s : MemoryStore} (h : s.closed = false) :
    SourceStore.enumerate s = .ok s.units.keys := by
  change s.enumerate = _
  simp [enumerate, h]

theorem enumerate_eq_ok {s : MemoryStore} {ids : List String}
    (h : SourceStore.enumerate s = .ok ids) : s.closed = false ∧ ids = s.units.keys := by
  cases hclosed : s.closed with
  | false =>
    rw [enumerate_of_open hclosed] at h
    cases h
    exact ⟨rfl, rfl⟩
  | true =>
    change s.enumerate = _ at h
    simp [enumerate, hclosed] at h

theorem readBytes_of_get? {s : MemoryStore} {unit : String} {content : Bytes}
    (h : s.units.get? unit = some content) : SourceStore.readBytes s unit = .ok content := by
  change s.readBytes unit = _
  rw [readBytes, h]

theorem readText_of_get? {s : MemoryStore} {unit text : String} {content : Bytes}
    (h : s.units.get? unit = some content) (htext : content.text? = some text) :
    SourceStore.readText s unit = .ok text := by
  simp only [SourceStore.readText, readBytes_of_get? h, htext]

theorem readText_of_not_text {s : MemoryStore} {unit : String} {content : Bytes}
    (h : s.units.get? unit = some content) (htext : content.text? = none) :
    SourceStore.readText s unit = .error (.notText unit) := by
  simp only [SourceStore.readText, readBytes_of_get? h, htext]

end MemoryStore

end Renaming
