import Mathlib.Data.List.Nodup
import Mathlib.Data.List.Perm.Basic

/-! A store of objects of which no two have the same key, as a server holds them that is
asked for an object by its name. -/

/-- The order of the items carries no meaning. -/
@[ext]
structure KeyedStore {α κ : Type} (key : α → κ) where
  items : List α
  nodup : (items.map key).Nodup

namespace KeyedStore

variable {α κ : Type} {key : α → κ}

def empty : KeyedStore key := ⟨[], List.nodup_nil⟩

def create (store : KeyedStore key) (a : α) (fresh : key a ∉ store.items.map key) :
    KeyedStore key :=
  ⟨store.items ++ [a], by
    rw [List.map_append, List.map_singleton]
    exact List.nodup_append'.mpr
      ⟨store.nodup, List.nodup_singleton _, List.disjoint_singleton.mpr fresh⟩⟩

def keep (store : KeyedStore key) (p : α → Bool) : KeyedStore key :=
  ⟨store.items.filter p, store.nodup.sublist (List.filter_sublist.map _)⟩

def Has (store : KeyedStore key) (Q : α → Prop) (k : κ) : Prop := ∃ a ∈ store.items, key a = k ∧ Q a

variable {store : KeyedStore key} {a b : α} {k : κ} {Q : α → Prop}

theorem eq_of_key (ha : a ∈ store.items) (hb : b ∈ store.items) (h : key a = key b) : a = b :=
  List.inj_on_of_nodup_map store.nodup ha hb h

theorem mem_create (fresh : key a ∉ store.items.map key) :
    b ∈ (store.create a fresh).items ↔ b ∈ store.items ∨ b = a := by
  simp [create]

theorem has_of_mem (h : a ∈ store.items) : store.Has Q (key a) ↔ Q a := by
  constructor
  · rintro ⟨b, hb, same, hq⟩
    rwa [← eq_of_key hb h same]
  · exact fun hq => ⟨a, h, rfl, hq⟩

theorem has_create (fresh : key a ∉ store.items.map key) :
    (store.create a fresh).Has Q k ↔ store.Has Q k ∨ (key a = k ∧ Q a) := by
  simp only [Has, mem_create]
  constructor
  · rintro ⟨b, hb | rfl, h⟩
    · exact .inl ⟨b, hb, h⟩
    · exact .inr h
  · rintro (⟨b, hb, h⟩ | h)
    · exact ⟨b, .inl hb, h⟩
    · exact ⟨a, .inr rfl, h⟩

variable [DecidableEq κ] {old : α}

def get (store : KeyedStore key) (k : κ) : Option α := store.items.find? (key · = k)

def update (store : KeyedStore key) (a : α) : KeyedStore key :=
  ⟨store.items.map fun b => if key b = key a then a else b, by
    have same : (store.items.map fun b => if key b = key a then a else b).map key =
        store.items.map key := by
      rw [List.map_map]
      refine List.map_congr_left fun b _ => ?_
      simp only [Function.comp_apply]
      split_ifs with h
      · exact h.symm
      · rfl
    rw [same]
    exact store.nodup⟩

def delete (store : KeyedStore key) (k : κ) : KeyedStore key :=
  ⟨store.items.filter fun a => key a ≠ k, store.nodup.sublist (List.filter_sublist.map _)⟩

/-- The assignment of a map: an object with the same key gives way. -/
def assign (store : KeyedStore key) (a : α) : KeyedStore key :=
  (store.delete (key a)).create a (by simp [delete])

theorem items_assign (absent : store.get (key a) = none) :
    (store.assign a).items = store.items ++ [a] := by
  have none : ∀ b ∈ store.items, key b ≠ key a := fun b hb eq => by
    have := List.find?_eq_none.mp absent b hb
    exact this (decide_eq_true eq)
  have kept : (store.delete (key a)).items = store.items :=
    List.filter_eq_self.mpr fun b hb => decide_eq_true (none b hb)
  exact congrArg (· ++ [a]) kept

theorem mem_of_get (h : store.get k = some a) : a ∈ store.items ∧ key a = k := by
  rw [get] at h
  have same := List.find?_some h
  exact ⟨List.mem_of_find?_eq_some h, of_decide_eq_true same⟩

theorem get_eq (h : a ∈ store.items) : store.get (key a) = some a := by
  have found : (store.get (key a)).isSome = true := by
    rw [get, List.find?_isSome]
    exact ⟨a, h, decide_eq_true rfl⟩
  obtain ⟨b, hb⟩ := Option.isSome_iff_exists.mp found
  obtain ⟨mem, same⟩ := mem_of_get hb
  rw [hb, eq_of_key mem h same]

theorem mem_delete : a ∈ (store.delete k).items ↔ a ∈ store.items ∧ key a ≠ k := by
  simp [delete]

theorem mem_update : b ∈ (store.update a).items ↔
    (b ∈ store.items ∧ key b ≠ key a) ∨ (b = a ∧ ∃ c ∈ store.items, key c = key a) := by
  simp only [update, List.mem_map]
  constructor
  · rintro ⟨c, hc, rfl⟩
    split_ifs with h
    · exact .inr ⟨rfl, c, hc, h⟩
    · exact .inl ⟨hc, h⟩
  · rintro (⟨hb, hne⟩ | ⟨rfl, c, hc, h⟩)
    · exact ⟨b, hb, if_neg hne⟩
    · exact ⟨c, hc, if_pos h⟩

theorem mem_update_of_mem (a : α) (h : old ∈ store.items) (same : key a = key old) :
    b ∈ (store.update a).items ↔ (b ∈ store.items ∧ b ≠ old) ∨ b = a := by
  rw [mem_update, same]
  constructor
  · rintro (⟨hb, hne⟩ | ⟨rfl, -⟩)
    · exact .inl ⟨hb, fun eq => hne (congrArg key eq)⟩
    · exact .inr rfl
  · rintro (⟨hb, hne⟩ | rfl)
    · exact .inl ⟨hb, fun eq => hne (eq_of_key hb h eq)⟩
    · exact .inr ⟨rfl, old, h, rfl⟩

theorem items_update [DecidableEq α] (a : α) (h : old ∈ store.items) (same : key a = key old) :
    (store.update a).items = store.items.map fun b => if b = old then a else b := by
  refine List.map_congr_left fun b hb => ?_
  have replaced : key b = key a ↔ b = old := by
    rw [same]
    exact ⟨eq_of_key hb h, congrArg key⟩
  simp only [replaced]

theorem has_delete {k' : κ} : (store.delete k').Has Q k ↔ store.Has Q k ∧ k ≠ k' := by
  simp only [Has, mem_delete]
  constructor
  · rintro ⟨a, ⟨ha, hne⟩, rfl, hq⟩
    exact ⟨⟨a, ha, rfl, hq⟩, hne⟩
  · rintro ⟨⟨a, ha, rfl, hq⟩, hne⟩
    exact ⟨a, ⟨ha, hne⟩, rfl, hq⟩

theorem has_update (a : α) (h : old ∈ store.items) (same : key a = key old) :
    (store.update a).Has Q k ↔ (store.Has Q k ∧ k ≠ key old) ∨ (k = key old ∧ Q a) := by
  simp only [Has, mem_update_of_mem a h same]
  constructor
  · rintro ⟨b, ⟨hb, hne⟩ | rfl, rfl, hq⟩
    · exact .inl ⟨⟨b, hb, rfl, hq⟩, fun eq => hne (eq_of_key hb h eq)⟩
    · exact .inr ⟨same, hq⟩
  · rintro (⟨⟨b, hb, rfl, hq⟩, hne⟩ | ⟨rfl, hq⟩)
    · exact ⟨b, .inl ⟨hb, fun eq => hne (congrArg key eq)⟩, rfl, hq⟩
    · exact ⟨a, .inr rfl, same, hq⟩

theorem has_update_iff (a : α) (h : old ∈ store.items) (same : key a = key old)
    (keep : Q a ↔ Q old) :
    (store.update a).Has Q k ↔ store.Has Q k := by
  rw [has_update a h same, keep, ← has_of_mem (Q := Q) h]
  by_cases hk : k = key old
  · simp [hk]
  · simp [hk]

end KeyedStore
