import TaskContract.Proofs.Json.RoundTrip

/-!
# The structure of JSON values

How deep values are nested, which kinds of values go down to what is within them, and when two
values are the same: as values of the type, not as numbers of different types may be equal.
-/

namespace TaskContract

namespace Members

variable {name : Text} {v : Json} {ms : Members}

theorem mem_of_get? (h : get? name ms = some v) : (name, v) ∈ ms := by
  induction ms with
  | nil => cases h
  | cons m rest ih =>
      obtain ⟨k, w⟩ := m
      rw [get?] at h
      split at h
      · rename_i hk
        obtain rfl := Option.some.inj h
        exact hk ▸ List.mem_cons_self
      · exact List.mem_cons_of_mem _ (ih h)

theorem get?_of_mem (hnames : (ms.map Prod.fst).Nodup) (h : (name, v) ∈ ms) :
    get? name ms = some v := by
  induction ms with
  | nil => cases h
  | cons m rest ih =>
      obtain ⟨k, w⟩ := m
      obtain ⟨hnew, hrest⟩ := List.nodup_cons.mp hnames
      rw [get?]
      rcases List.mem_cons.mp h with heq | hmem
      · obtain ⟨rfl, rfl⟩ := Prod.mk.inj heq
        exact if_pos rfl
      · have hne : k ≠ name := by
          rintro rfl
          exact hnew (List.mem_map.mpr ⟨_, hmem, rfl⟩)
        rw [if_neg hne]
        exact ih hrest hmem

theorem get?_eq_none_iff : get? name ms = none ↔ name ∉ ms.map Prod.fst := by
  rw [← has_eq_false_iff, has, Option.isSome_eq_false_iff, Option.isNone_iff_eq_none]

end Members

namespace Json

def isBool : Json → Bool
  | .bool _ => true
  | _ => false

theorem isNone_arr {v : Json} (h : ∀ items, v ≠ .arr items) : v.arr?.isNone = true := by
  cases v with
  | arr items => exact absurd rfl (h items)
  | _ => rfl

/-! ## Depth -/

mutual

def depth : Json → Nat
  | .arr items => depthOfItems items + 1
  | .obj ms => depthOfMembers ms + 1
  | _ => 0

def depthOfItems : List Json → Nat
  | [] => 0
  | v :: rest => max (depth v) (depthOfItems rest)

def depthOfMembers : List (Text × Json) → Nat
  | [] => 0
  | (_, v) :: rest => max (depth v) (depthOfMembers rest)

end

theorem depth_item {items : List Json} {v : Json} (h : v ∈ items) :
    v.depth < (arr items).depth := by
  rw [depth, Nat.lt_succ_iff]
  induction items with
  | nil => cases h
  | cons w rest ih =>
      rw [depthOfItems]
      rcases List.mem_cons.mp h with rfl | h
      · exact Nat.le_max_left _ _
      · exact (ih h).trans (Nat.le_max_right _ _)

theorem depth_member {ms : Members} {k : Text} {v : Json} (h : (k, v) ∈ ms) :
    v.depth < (obj ms).depth := by
  rw [depth, Nat.lt_succ_iff]
  induction ms with
  | nil => cases h
  | cons m rest ih =>
      obtain ⟨k', w⟩ := m
      rw [depthOfMembers]
      rcases List.mem_cons.mp h with heq | h
      · obtain ⟨-, rfl⟩ := Prod.mk.inj heq
        exact Nat.le_max_left _ _
      · exact (ih h).trans (Nat.le_max_right _ _)

/-! ## Kinds of values -/

/-- The values of some kind have only values of that kind within them, and so have the names of
their members. -/
structure IsInherited (P : Json → Prop) : Prop where
  item : ∀ {items w}, P (.arr items) → w ∈ items → P w
  member : ∀ {members : Members} {k w}, P (.obj members) → (k, w) ∈ members → P w
  name : ∀ {members : Members} {k w}, P (.obj members) → (k, w) ∈ members → P (.str k)

theorem isInherited_depth (n : Nat) : IsInherited fun v => v.depth ≤ n where
  item h hw := (depth_item hw).le.trans h
  member h hw := (depth_member hw).le.trans h
  name _ _ := Nat.zero_le n

/-! ## Numbers -/

mutual

def numbers : Json → List Json
  | .int n => [.int n]
  | .float x => [.float x]
  | .arr items => numbersOfItems items
  | .obj ms => numbersOfMembers ms
  | _ => []

def numbersOfItems : List Json → List Json
  | [] => []
  | v :: rest => numbers v ++ numbersOfItems rest

def numbersOfMembers : List (Text × Json) → List Json
  | [] => []
  | (_, v) :: rest => numbers v ++ numbersOfMembers rest

end

theorem numbers_item {items : List Json} {v : Json} (h : v ∈ items) :
    v.numbers ⊆ (arr items).numbers := by
  rw [numbers]
  induction items with
  | nil => cases h
  | cons w rest ih =>
      rw [numbersOfItems]
      rcases List.mem_cons.mp h with rfl | h
      · exact List.subset_append_left _ _
      · exact List.Subset.trans (ih h) (List.subset_append_right _ _)

theorem numbers_member {ms : Members} {k : Text} {v : Json} (h : (k, v) ∈ ms) :
    v.numbers ⊆ (obj ms).numbers := by
  rw [numbers]
  induction ms with
  | nil => cases h
  | cons m rest ih =>
      obtain ⟨k', w⟩ := m
      rw [numbersOfMembers]
      rcases List.mem_cons.mp h with heq | h
      · obtain ⟨-, rfl⟩ := Prod.mk.inj heq
        exact List.subset_append_left _ _
      · exact List.Subset.trans (ih h) (List.subset_append_right _ _)

theorem isInherited_numbers (ns : List Json) : IsInherited fun v => v.numbers ⊆ ns where
  item h hw := List.Subset.trans (numbers_item hw) h
  member h hw := List.Subset.trans (numbers_member hw) h
  name _ _ := List.nil_subset _

/-! ## Identity -/

mutual

def isSame : Json → Json → Bool
  | .null, .null => true
  | .bool a, .bool b => a = b
  | .int m, .int n => m = n
  | .float x, .float y => x = y
  | .str s, .str t => s = t
  | .arr vs, .arr ws => areSame vs ws
  | .obj ms, .obj ns => areSameMembers ms ns
  | _, _ => false

def areSame : List Json → List Json → Bool
  | [], [] => true
  | v :: vs, w :: ws => isSame v w && areSame vs ws
  | _, _ => false

def areSameMembers : List (Text × Json) → List (Text × Json) → Bool
  | [], [] => true
  | (k, v) :: ms, (l, w) :: ns => k = l && isSame v w && areSameMembers ms ns
  | _, _ => false

end

mutual

theorem isSame_self : ∀ v : Json, isSame v v = true
  | .null => rfl
  | .bool _ | .int _ | .float _ | .str _ => decide_eq_true rfl
  | .arr items => areSame_self items
  | .obj ms => areSameMembers_self ms

theorem areSame_self : ∀ vs : List Json, areSame vs vs = true
  | [] => rfl
  | v :: rest => Bool.and_eq_true_iff.mpr ⟨isSame_self v, areSame_self rest⟩

theorem areSameMembers_self : ∀ ms : List (Text × Json), areSameMembers ms ms = true
  | [] => rfl
  | (_, v) :: rest => Bool.and_eq_true_iff.mpr
      ⟨Bool.and_eq_true_iff.mpr ⟨decide_eq_true rfl, isSame_self v⟩, areSameMembers_self rest⟩

end

mutual

theorem eq_of_isSame : ∀ v w : Json, isSame v w = true → v = w
  | .null, .null, _ => rfl
  | .bool _, .bool _, h => congrArg Json.bool (of_decide_eq_true h)
  | .int _, .int _, h => congrArg Json.int (of_decide_eq_true h)
  | .float _, .float _, h => congrArg Json.float (of_decide_eq_true h)
  | .str _, .str _, h => congrArg Json.str (of_decide_eq_true h)
  | .arr vs, .arr ws, h => congrArg Json.arr (eq_of_areSame vs ws h)
  | .obj ms, .obj ns, h => congrArg Json.obj (eq_of_areSameMembers ms ns h)

theorem eq_of_areSame : ∀ vs ws : List Json, areSame vs ws = true → vs = ws
  | [], [], _ => rfl
  | v :: vs, w :: ws, h => by
      obtain ⟨hv, hvs⟩ := Bool.and_eq_true_iff.mp h
      rw [eq_of_isSame v w hv, eq_of_areSame vs ws hvs]

theorem eq_of_areSameMembers : ∀ ms ns : List (Text × Json), areSameMembers ms ns = true → ms = ns
  | [], [], _ => rfl
  | (k, v) :: ms, (l, w) :: ns, h => by
      obtain ⟨hm, hms⟩ := Bool.and_eq_true_iff.mp h
      obtain ⟨hk, hv⟩ := Bool.and_eq_true_iff.mp hm
      rw [of_decide_eq_true hk, eq_of_isSame v w hv, eq_of_areSameMembers ms ns hms]

end

instance : DecidableEq Json := fun v w =>
  decidable_of_iff (isSame v w = true) ⟨eq_of_isSame v w, fun h => h ▸ isSame_self v⟩

end Json

end TaskContract
