import Mathlib.Data.List.Chain
import Mathlib.Data.List.Nodup
import StackQueue.Sequence.Links

/-!
# Rings of slots

The slots of the values of a sequence, front to back, form a ring together with the extra place
`none`: the links run around it in both directions. Each group of joins that an operation makes
turns one ring into another.

## Implementation notes

The place in front of the first slot and the one behind the last are the same place `none`, so the
ends of a sequence need no cases of their own: `slots.head?` and `slots.getLast?` are places.
-/

namespace StackQueue.Sequence

variable {s : Sequence} {a b before after : Option Nat} {slot : Nat} {slots : List Nat}

/-- The second place follows the first, and the first leads the second. -/
def Adjacent (s : Sequence) (a b : Option Nat) : Prop :=
  s.follower a = some b ∧ s.leader b = some a

/-- A place is the extra one or the slot of a cell. -/
def HasPlace (s : Sequence) (place : Option Nat) : Prop :=
  ∀ slot ∈ place, slot < s.cells.size

@[simp] theorem hasPlace_none (s : Sequence) : s.HasPlace none := by
  simp [HasPlace]

@[simp] theorem hasPlace_some : s.HasPlace (some slot) ↔ slot < s.cells.size := by
  simp [HasPlace]

@[simp] theorem hasPlace_join {place : Option Nat} :
    (s.join before after).HasPlace place ↔ s.HasPlace place := by
  simp [HasPlace]

theorem HasPlace.exists_follower (h : s.HasPlace a) : ∃ next, s.follower a = some next := by
  cases a with
  | none => exact ⟨_, rfl⟩
  | some slot =>
      have hcell := Array.getElem?_eq_getElem (hasPlace_some.mp h)
      exact ⟨_, congrArg (Option.map Cell.next) hcell⟩

theorem HasPlace.exists_leader (h : s.HasPlace a) : ∃ previous, s.leader a = some previous := by
  cases a with
  | none => exact ⟨_, rfl⟩
  | some slot =>
      have hcell := Array.getElem?_eq_getElem (hasPlace_some.mp h)
      exact ⟨_, congrArg (Option.map Cell.previous) hcell⟩

theorem Adjacent.hasPlace_left (h : s.Adjacent a b) : s.HasPlace a := by
  rintro slot rfl
  obtain ⟨cell, hcell, -⟩ := Option.map_eq_some_iff.mp h.1
  exact (Array.getElem?_eq_some_iff.mp hcell).1

theorem Adjacent.hasPlace_right (h : s.Adjacent a b) : s.HasPlace b := by
  rintro slot rfl
  obtain ⟨cell, hcell, -⟩ := Option.map_eq_some_iff.mp h.2
  exact (Array.getElem?_eq_some_iff.mp hcell).1

/-- A join links the two places that it is given. -/
theorem adjacent_join (hbefore : s.HasPlace before) (hafter : s.HasPlace after) :
    (s.join before after).Adjacent before after := by
  obtain ⟨next, hnext⟩ := hbefore.exists_follower
  obtain ⟨previous, hprevious⟩ := hafter.exists_leader
  constructor
  · simp [follower_join, hnext]
  · simp [leader_join, hprevious]

/-- A join keeps the links between other places. -/
theorem Adjacent.join (h : s.Adjacent a b) (ha : a ≠ before) (hb : b ≠ after) :
    (s.join before after).Adjacent a b := by
  constructor
  · rw [follower_join, if_neg ha, h.1]
  · rw [leader_join, if_neg hb, h.2]

theorem follower_setValue (s : Sequence) (slot : Nat) (value : Int32) (place : Option Nat) :
    (s.setValue slot value).follower place = s.follower place := by
  cases place with
  | none => rfl
  | some other =>
      simp only [follower, setValue, Array.getElem?_modify]
      split
      · rw [Option.map_map]
        rfl
      · rfl

theorem leader_setValue (s : Sequence) (slot : Nat) (value : Int32) (place : Option Nat) :
    (s.setValue slot value).leader place = s.leader place := by
  cases place with
  | none => rfl
  | some other =>
      simp only [leader, setValue, Array.getElem?_modify]
      split
      · rw [Option.map_map]
        rfl
      · rfl

/-- Every slot of the list is linked with the next one. -/
def Links (s : Sequence) (slots : List Nat) : Prop :=
  slots.IsChain fun a b => s.Adjacent (some a) (some b)

/-- A join keeps the links along slots of which only the last may be `before` and only the first
may be `after`. -/
theorem Links.join (h : s.Links slots) (hbefore : ∀ slot ∈ before, slot ∉ slots.dropLast)
    (hafter : ∀ slot ∈ after, slot ∉ slots.tail) : (s.join before after).Links slots := by
  induction slots with
  | nil => exact List.isChain_nil
  | cons a rest ih =>
      cases rest with
      | nil => exact List.isChain_singleton a
      | cons b rest =>
          obtain ⟨hab, hrest⟩ := List.isChain_cons_cons.mp h
          refine List.isChain_cons_cons.mpr ⟨hab.join ?_ ?_, ih hrest ?_ ?_⟩
          · rintro rfl
            exact hbefore a rfl (by simp)
          · rintro rfl
            exact hafter b rfl (by simp)
          · intro slot hslot hmem
            exact hbefore slot hslot (by simp [hmem])
          · intro slot hslot hmem
            exact hafter slot hslot (List.mem_cons_of_mem b hmem)

/-- A place that is none of the given slots. -/
def Outside (slots : List Nat) (place : Option Nat) : Prop :=
  ∀ slot ∈ place, slot ∉ slots

@[simp] theorem outside_none (slots : List Nat) : Outside slots none := by
  simp [Outside]

@[simp] theorem outside_some : Outside slots (some slot) ↔ slot ∉ slots := by
  simp [Outside]

theorem Outside.ne_head? (h : Outside slots (some slot)) : some slot ≠ slots.head? :=
  fun heq => outside_some.mp h (List.mem_of_mem_head? heq.symm)

theorem Outside.ne_getLast? (h : Outside slots (some slot)) : some slot ≠ slots.getLast? :=
  fun heq => outside_some.mp h (List.mem_of_mem_getLast? heq.symm)

namespace Links

/-- Joins between places outside leave the links along the slots alone. -/
theorem join_outside (h : s.Links slots) (hbefore : Outside slots before)
    (hafter : Outside slots after) : (s.join before after).Links slots := by
  apply h.join
  · intro slot hslot hmem
    exact hbefore slot hslot (List.dropLast_subset slots hmem)
  · intro slot hslot hmem
    exact hafter slot hslot (List.mem_of_mem_tail hmem)

/-- Another place may come in front of the slots. -/
theorem join_head? (h : s.Links slots) (hnodup : slots.Nodup) (hbefore : Outside slots before) :
    (s.join before slots.head?).Links slots := by
  apply h.join
  · intro slot hslot hmem
    exact hbefore slot hslot (List.dropLast_subset slots hmem)
  · cases slots with
    | nil => simp
    | cons a rest => simpa using (List.nodup_cons.mp hnodup).1

/-- Another place may come behind the slots. -/
theorem join_getLast? (h : s.Links slots) (hnodup : slots.Nodup) (hafter : Outside slots after) :
    (s.join slots.getLast? after).Links slots := by
  apply h.join
  · intro slot hslot hmem
    have hsplit := List.dropLast_append_getLast? slot hslot
    rw [← hsplit] at hnodup
    exact (List.nodup_append'.mp hnodup).2.2 hmem (by simp)
  · intro slot hslot hmem
    exact hafter slot hslot (List.mem_of_mem_tail hmem)

end Links

/-- The links of a sequence run around the given slots and the extra place. -/
structure Ring (s : Sequence) (slots : List Nat) : Prop where
  first : s.Adjacent none slots.head?
  links : s.Links slots
  last : s.Adjacent slots.getLast? none

namespace Ring

theorem front_eq (h : s.Ring slots) : s.front = slots.head? :=
  Option.some.inj h.first.1

theorem back_eq (h : s.Ring slots) : s.back = slots.getLast? :=
  Option.some.inj h.last.2

theorem hasPlace_head? (h : s.Ring slots) : s.HasPlace slots.head? :=
  h.first.hasPlace_right

theorem hasPlace_getLast? (h : s.Ring slots) : s.HasPlace slots.getLast? :=
  h.last.hasPlace_left

/-- A slot follows the last of those in front of it, which may be the extra place. -/
theorem adjacent_before {init rest : List Nat} (h : s.Ring (init ++ slot :: rest)) :
    s.Adjacent init.getLast? (some slot) := by
  rcases List.eq_nil_or_concat init with rfl | ⟨init, a, rfl⟩
  · exact h.first
  · rw [List.concat_eq_append] at h ⊢
    rw [List.getLast?_concat]
    exact (List.isChain_append.mp h.links).2.2 a (by simp) slot (by simp)

/-- A slot leads the first of those behind it, which may be the extra place. -/
theorem adjacent_behind {init rest : List Nat} (h : s.Ring (init ++ slot :: rest)) :
    s.Adjacent (some slot) rest.head? := by
  cases rest with
  | nil =>
      have hlast := h.last
      rwa [List.getLast?_concat] at hlast
  | cons a rest => exact (List.isChain_cons_cons.mp h.links.right_of_append).1

/-- The first slot leads the head of the others. -/
theorem adjacent_head? {rest : List Nat} (h : s.Ring (slot :: rest)) :
    s.Adjacent (some slot) rest.head? := by
  have hsplit : s.Ring ([] ++ slot :: rest) := h
  exact hsplit.adjacent_behind

/-- The second slot leads the head of those behind it. -/
theorem adjacent_second {second : Nat} {rest : List Nat} (h : s.Ring (slot :: second :: rest)) :
    s.Adjacent (some second) rest.head? := by
  have hsplit : s.Ring ([slot] ++ second :: rest) := h
  exact hsplit.adjacent_behind

/-- The last slot follows the last of the others. -/
theorem adjacent_getLast? {init : List Nat} (h : s.Ring (init ++ [slot])) :
    s.Adjacent init.getLast? (some slot) :=
  adjacent_before h

/-- A ring depends only on the links of its own slots and of the extra place. -/
theorem congr {t : Sequence} (h : s.Ring slots)
    (hagree : ∀ place, (∀ slot ∈ place, slot ∈ slots) →
      t.follower place = s.follower place ∧ t.leader place = s.leader place) : t.Ring slots := by
  have adjacent {a b : Option Nat} (hab : s.Adjacent a b) (ha : ∀ slot ∈ a, slot ∈ slots)
      (hb : ∀ slot ∈ b, slot ∈ slots) : t.Adjacent a b :=
    ⟨(hagree a ha).1.trans hab.1, (hagree b hb).2.trans hab.2⟩
  constructor
  · exact adjacent h.first (by simp) fun _ => List.mem_of_mem_head?
  · refine List.IsChain.imp_of_mem_imp ?_ h.links
    intro a b ha hb hab
    exact adjacent hab (by simpa using ha) (by simpa using hb)
  · exact adjacent h.last (fun _ => List.mem_of_mem_getLast?) (by simp)

/-- Giving back a slot changes no link. -/
theorem release (h : s.Ring slots) (slot : Nat) : (s.release slot).Ring slots :=
  h.congr fun place _ => by cases place <;> exact ⟨rfl, rfl⟩

/-- Another value changes no link. -/
theorem setValue (h : s.Ring slots) (slot : Nat) (value : Int32) :
    (s.setValue slot value).Ring slots :=
  h.congr fun place _ => ⟨follower_setValue s slot value place, leader_setValue s slot value place⟩

/-- A new slot goes between the extra place and the first slot. -/
theorem insertFront (h : s.Ring slots) (hslot : slot < s.cells.size) (hnodup : slots.Nodup)
    (hfresh : Outside slots (some slot)) :
    ((s.join (some slot) slots.head?).join none (some slot)).Ring (slot :: slots) := by
  have hnew : ((s.join (some slot) slots.head?).join none (some slot)).Adjacent
      (some slot) slots.head? :=
    (adjacent_join (hasPlace_some.mpr hslot) h.hasPlace_head?).join (by simp) hfresh.ne_head?.symm
  constructor
  · exact adjacent_join (hasPlace_none _) (by simpa using hslot)
  · refine List.isChain_cons.mpr ⟨?_, ?_⟩
    · intro a ha
      rw [Option.mem_def] at ha
      simpa only [ha] using hnew
    · exact (h.links.join_head? hnodup hfresh).join_outside (outside_none _) hfresh
  · cases slots with
    | nil => exact hnew
    | cons a rest =>
        rw [List.getLast?_cons_cons]
        exact (h.last.join hfresh.ne_getLast?.symm (by simp)).join (by simp) (by simp)

/-- A new slot goes between the last slot and the extra place. -/
theorem insertBack (h : s.Ring slots) (hslot : slot < s.cells.size) (hnodup : slots.Nodup)
    (hfresh : Outside slots (some slot)) :
    ((s.join slots.getLast? (some slot)).join (some slot) none).Ring (slots ++ [slot]) := by
  have hnew : ((s.join slots.getLast? (some slot)).join (some slot) none).Adjacent
      slots.getLast? (some slot) :=
    (adjacent_join h.hasPlace_getLast? (hasPlace_some.mpr hslot)).join hfresh.ne_getLast?.symm
      (by simp)
  constructor
  · cases slots with
    | nil => exact hnew
    | cons a rest =>
        have hlast : none ≠ (a :: rest).getLast? := by simp [List.getLast?_cons]
        exact (h.first.join hlast hfresh.ne_head?.symm).join (by simp) (by simp)
  · refine List.isChain_append.mpr ⟨?_, List.isChain_singleton slot, ?_⟩
    · exact (h.links.join_getLast? hnodup hfresh).join_outside hfresh (outside_none _)
    · intro a ha b hb
      obtain rfl : slot = b := by simpa using hb
      rw [Option.mem_def] at ha
      simpa only [ha] using hnew
  · rw [List.getLast?_concat]
    exact adjacent_join (by simpa using hslot) (hasPlace_none _)

/-- Without its first slot, the ring closes between the extra place and the second. -/
theorem removeFront {rest : List Nat} (h : s.Ring (slot :: rest)) (hnodup : (slot :: rest).Nodup) :
    (s.join none rest.head?).Ring rest := by
  have hclosed : (s.join none rest.head?).Adjacent none rest.head? :=
    adjacent_join (hasPlace_none _) h.adjacent_head?.hasPlace_right
  refine ⟨hclosed, ?_, ?_⟩
  · exact Links.join_head? h.links.tail (List.nodup_cons.mp hnodup).2 (outside_none _)
  · cases rest with
    | nil => exact hclosed
    | cons a rest =>
        have hlast := h.last
        rw [List.getLast?_cons_cons] at hlast
        exact hlast.join (by simp [List.getLast?_cons]) (by simp)

/-- The first two slots change places. -/
theorem exchange {first second : Nat} {rest : List Nat} (h : s.Ring (first :: second :: rest))
    (hnodup : (first :: second :: rest).Nodup) :
    (((s.join none (some second)).join (some second) (some first)).join
      (some first) rest.head?).Ring (second :: first :: rest) := by
  obtain ⟨hfirst, hnodup⟩ := List.nodup_cons.mp hnodup
  obtain ⟨hsecond, hnodup⟩ := List.nodup_cons.mp hnodup
  have hne : first ≠ second := fun heq => hfirst (heq ▸ List.mem_cons_self)
  have hfirst : Outside rest (some first) :=
    outside_some.mpr fun hmem => hfirst (List.mem_cons_of_mem second hmem)
  have hsecond : Outside rest (some second) := outside_some.mpr hsecond
  have htail : s.Adjacent (some second) rest.head? := h.adjacent_second
  have hplace : s.HasPlace (some first) := h.hasPlace_head?
  have hopen : (((s.join none (some second)).join (some second) (some first)).join
      (some first) rest.head?).Adjacent (some first) rest.head? :=
    adjacent_join (by simpa using hplace) (by simpa using htail.hasPlace_right)
  constructor
  · have hnew : (s.join none (some second)).Adjacent none (some second) :=
      adjacent_join (hasPlace_none _) htail.hasPlace_left
    exact (hnew.join (by simp) (by simpa using hne.symm)).join (by simp) hsecond.ne_head?
  · refine List.isChain_cons_cons.mpr ⟨?_, List.isChain_cons.mpr ⟨?_, ?_⟩⟩
    · have hnew : ((s.join none (some second)).join (some second) (some first)).Adjacent
          (some second) (some first) :=
        adjacent_join (by simpa using htail.hasPlace_left) (by simpa using hplace)
      exact hnew.join (by simpa using hne.symm) hfirst.ne_head?
    · intro a ha
      rw [Option.mem_def] at ha
      simpa only [ha] using hopen
    · have hlinks : s.Links rest := h.links.tail.tail
      refine Links.join_head? ?_ hnodup hfirst
      exact (hlinks.join_outside (outside_none _) hsecond).join_outside hsecond hfirst
  · cases rest with
    | nil => exact hopen
    | cons a rest =>
        have hlast := h.last
        simp only [List.getLast?_cons_cons] at hlast ⊢
        refine ((hlast.join ?_ ?_).join hsecond.ne_getLast?.symm ?_).join
          hfirst.ne_getLast?.symm ?_
        · simp [List.getLast?_cons]
        · simp
        · simp
        · simp

/-- The first slot goes behind the others. -/
theorem rotateLeft {rest : List Nat} (h : s.Ring (slot :: rest)) (hnodup : (slot :: rest).Nodup)
    (hne : rest ≠ []) :
    (((s.join none rest.head?).join rest.getLast? (some slot)).join (some slot) none).Ring
      (rest ++ [slot]) := by
  obtain ⟨hslot, hnodup⟩ := List.nodup_cons.mp hnodup
  have hslot : Outside rest (some slot) := outside_some.mpr hslot
  have hplace : s.HasPlace (some slot) := h.hasPlace_head?
  have hlast : s.HasPlace rest.getLast? := by
    have hplace := h.hasPlace_getLast?
    rwa [List.getLast?_cons_of_ne_nil hne] at hplace
  have hend : none ≠ rest.getLast? := by simpa [eq_comm] using hne
  constructor
  · have hnew : (s.join none rest.head?).Adjacent none rest.head? :=
      adjacent_join (hasPlace_none _) h.adjacent_head?.hasPlace_right
    have hhead : (rest ++ [slot]).head? = rest.head? := by
      rw [List.head?_append_of_ne_nil _ hne]
    rw [hhead]
    exact (hnew.join hend hslot.ne_head?.symm).join (by simp) (by simpa using hne)
  · refine List.isChain_append.mpr ⟨?_, List.isChain_singleton slot, ?_⟩
    · have hlinks : s.Links rest := h.links.tail
      refine Links.join_outside ?_ hslot (outside_none _)
      exact (hlinks.join_head? hnodup (outside_none _)).join_getLast? hnodup hslot
    · intro a ha b hb
      obtain rfl : slot = b := by simpa using hb
      rw [Option.mem_def] at ha
      have hnew : ((s.join none rest.head?).join rest.getLast? (some slot)).Adjacent
          rest.getLast? (some slot) :=
        adjacent_join (by simpa using hlast) (by simpa using hplace)
      simpa only [ha] using hnew.join hslot.ne_getLast?.symm (by simp)
  · rw [List.getLast?_concat]
    exact adjacent_join (by simpa using hplace) (hasPlace_none _)

/-- The last slot goes in front of the others. -/
theorem rotateRight {init : List Nat} (h : s.Ring (init ++ [slot]))
    (hnodup : (init ++ [slot]).Nodup) (hne : init ≠ []) :
    (((s.join init.getLast? none).join (some slot) init.head?).join none (some slot)).Ring
      (slot :: init) := by
  obtain ⟨hnodup, -, hdisjoint⟩ := List.nodup_append'.mp hnodup
  have hslot : Outside init (some slot) := by simpa using hdisjoint
  have hplace : s.HasPlace (some slot) := by simpa using h.hasPlace_getLast?
  have hhead : s.HasPlace init.head? := by
    have hplace := h.hasPlace_head?
    rwa [List.head?_append_of_ne_nil _ hne] at hplace
  have hlast : s.HasPlace init.getLast? := h.adjacent_getLast?.hasPlace_left
  have hstart : none ≠ init.head? := by simpa [eq_comm] using hne
  have hend : init.getLast? ≠ none := by simpa using hne
  constructor
  · exact adjacent_join (hasPlace_none _) (by simpa using hplace)
  · refine List.isChain_cons.mpr ⟨?_, ?_⟩
    · intro a ha
      rw [Option.mem_def] at ha
      have hnew : ((s.join init.getLast? none).join (some slot) init.head?).Adjacent
          (some slot) init.head? :=
        adjacent_join (by simpa using hplace) (by simpa using hhead)
      simpa only [ha] using hnew.join (by simp) hslot.ne_head?.symm
    · have hlinks : s.Links init := h.links.left_of_append
      refine Links.join_outside ?_ (outside_none _) hslot
      exact (hlinks.join_getLast? hnodup (outside_none _)).join_head? hnodup hslot
  · rw [List.getLast?_cons_of_ne_nil hne]
    have hnew : (s.join init.getLast? none).Adjacent init.getLast? none :=
      adjacent_join hlast (hasPlace_none _)
    exact (hnew.join hslot.ne_getLast?.symm hstart).join hend (by simp)

end Ring

end StackQueue.Sequence
