import Audd.JsonParseItems
import Audd.JsonStrip

/-! A response body in memory, from `cJSON_ParseWithLength` to `cJSON_Delete`.  In between the
deprecation is stripped, and members are read as text wherever they lie in the tree.  The pointers
that the reads return point into the tree: they are followed only at the end. -/

namespace Audd

/-! ### Places in a tree -/

/-- A step into a tree: to a member by its name, or to a child by its index. -/
inductive Place
  | member (name : CString)
  | child (index : Nat)

namespace CJson

/-- `cJSON_GetArrayItem`. -/
def getArrayItem (v : CJson) (index : Nat) : Option CJson :=
  match v with
  | array items => items[index]?
  | object members => members[index]?.map Prod.snd
  | _ => none

/-- The child at an index, replaced. -/
def setChild (v : CJson) (index : Nat) (item : CJson) : CJson :=
  match v with
  | array items => array (items.set index item)
  | object members => object (members.modify index fun m => (m.1, item))
  | v => v

def next (v : CJson) : Place → Option CJson
  | .member name => v.getObjectItemCaseSensitive name
  | .child index => v.getArrayItem index

def setNext (v item : CJson) : Place → CJson
  | .member name => v.setItem name item
  | .child index => v.setChild index item

/-- What is at the end of a path. -/
def follow (v : CJson) : List Place → Option CJson
  | [] => some v
  | place :: path => (v.next place).bind fun item => item.follow path

/-- What is at the end of a path, replaced. -/
def replaceAt (v item : CJson) : List Place → CJson
  | [] => item
  | place :: path =>
    match v.next place with
    | none => v
    | some inner => v.setNext (inner.replaceAt item path) place

end CJson

section

variable (p : Platform)

/-- `audd_json_get_string` of an object at a path. -/
def readAt (v : CJson) (path : List Place) (key : CString) : AllocM (Option CString × CJson) :=
  match v.follow path with
  | none => pure (none, v)
  | some object => do
    let (s, object) ← jsonGetString p object key
    pure (s, v.replaceAt object path)

def readAll (v : CJson) : List (List Place × CString) → AllocM (List (Option CString) × CJson)
  | [] => pure ([], v)
  | (path, key) :: reads => do
    let (s, v) ← readAt p v path key
    let (texts, v) ← readAll v reads
    pure (s :: texts, v)

end

namespace Items

open HeapM

/-! ### In memory -/

/-- The loop of `get_array_item`. -/
def childFrom : Nat → Option Nat → HeapM Cell (Option Nat)
  | _, none => pure none
  | 0, some c => pure (some c)
  | index + 1, some c => do
    let n ← node (some c)
    childFrom index n.next

/-- `cJSON_GetArrayItem`. -/
def getArrayItem (array : Option Nat) (index : Nat) : HeapM Cell (Option Nat) :=
  match array with
  | none => pure none
  | some _ => do
    let a ← node array
    childFrom index a.child

def next (item : Option Nat) : Place → HeapM Cell (Option Nat)
  | .member name => getObjectItemCaseSensitive item name
  | .child index => getArrayItem item index

def follow (item : Option Nat) : List Place → HeapM Cell (Option Nat)
  | [] => pure item
  | place :: path => do
    let inner ← next item place
    follow inner path

section

variable (p : Platform)

def readAll (root : Option Nat) : List (List Place × CString) → HeapM Cell (List (Option Nat))
  | [] => pure []
  | (path, key) :: reads => do
    let object ← follow root path
    let pointer ← jsonGetString p object key
    let pointers ← readAll root reads
    pure (pointer :: pointers)

/-- The strings at pointers, of which some may be NULL. -/
def texts : List (Option Nat) → HeapM Cell (List (Option CString))
  | [] => pure []
  | none :: pointers => do
    let rest ← texts pointers
    pure (none :: rest)
  | some b :: pointers => do
    let s ← text (some b)
    let rest ← texts pointers
    pure (some s :: rest)

end

/-! ### Children -/

namespace Item

def nth (index : Nat) : Item → Option Item
  | array _ items => items[index]?
  | object _ ms => ms[index]?.map Prod.snd
  | _ => none

/-- `x` with `it` somewhere in it, and what `x` is when another item is filled in for `it` at its
block: what is around the item stays, and so do the strings. -/
structure Hole (x it : Item) (fill : Item → Item) : Prop where
  self : fill it = x
  block : ∀ it', it'.block = it.block → (fill it').block = x.block
  cells : ∀ name prev next, ∃ name' q q' around, ∀ it', it'.block = it.block →
    ((fill it').link name).cells prev next = (it'.link name').cells q q' + around
  keeps : ∀ it', it.strs ⊆ it'.strs → x.strs ⊆ (fill it').strs
  inner : ∀ it', it.strs ⊆ it'.strs → it'.strs ⊆ (fill it').strs

namespace Hole

variable {x y z : Item} {fill fill' : Item → Item}

theorem refl (x : Item) : Hole x x id where
  self := rfl
  block _ h := h
  cells name prev next := ⟨name, prev, next, 0, fun _ _ => (add_zero _).symm⟩
  keeps _ h := h
  inner _ _ := List.Subset.refl _

theorem trans (h : Hole x y fill) (h' : Hole y z fill') : Hole x z (fill ∘ fill') where
  self := (congrArg fill h'.self).trans h.self
  block it hit := h.block _ (h'.block it hit)
  cells name prev next := by
    obtain ⟨name₁, q₁, q₁', around, haround⟩ := h.cells name prev next
    obtain ⟨name₂, q₂, q₂', around', haround'⟩ := h'.cells name₁ q₁ q₁'
    refine ⟨name₂, q₂, q₂', around' + around, fun it hit => ?_⟩
    rw [Function.comp_apply, haround _ (h'.block it hit), haround' it hit, add_assoc]
  keeps it hit := h.keeps _ (h'.keeps it hit)
  inner it hit := List.Subset.trans (h'.inner it hit) (h.inner _ (h'.keeps it hit))

theorem member {key : CString} (h : x.member key = some y) : Hole x y (x.setMember key) where
  self := setMember_self h
  block it _ := block_setMember x key it
  cells name prev next := by
    obtain ⟨added, q, q', around, haround⟩ := cells_member h name prev next
    exact ⟨some added, q, q', around, haround⟩
  keeps it hit := (strs_setMember h hit).1
  inner it hit := (strs_setMember h hit).2

/-- An element of an array. -/
theorem element (b : Nat) (before after : List Item) (y : Item) :
    Hole (array b (before ++ y :: after)) y fun it => array b (before ++ it :: after) where
  self := rfl
  block _ _ := rfl
  cells name prev next := by
    obtain ⟨q, q', around, haround⟩ := cells_branch name b cJSON_Array (links before)
      (links after) y.block prev next
    refine ⟨none, q, q', around, fun it hit => ?_⟩
    rw [← haround (it.link none) ((link_block ..).trans hit), link, links_append]
    rfl
  keeps it hit := by
    rw [strs, strs, itemStrs_append, itemStrs_append, itemStrs, itemStrs]
    exact List.append_subset.2 ⟨List.subset_append_left _ _, List.append_subset.2
      ⟨List.Subset.trans hit (List.Subset.trans (List.subset_append_left _ _)
        (List.subset_append_right _ _)),
      List.Subset.trans (List.subset_append_right _ _) (List.subset_append_right _ _)⟩⟩
  inner it _ s hs := by
    rw [strs, itemStrs_append, itemStrs]
    simp [hs]

/-- A member of an object, by its index. -/
theorem entry (b : Nat) (before after : List (Str × Item)) (added : Str) (y : Item) :
    Hole (object b (before ++ (added, y) :: after)) y fun it =>
      object b (before ++ (added, it) :: after) where
  self := rfl
  block _ _ := rfl
  cells name prev next := by
    obtain ⟨q, q', around, haround⟩ := cells_branch name b cJSON_Object (memberLinks before)
      (memberLinks after) y.block prev next
    refine ⟨some added, q, q', around, fun it hit => ?_⟩
    rw [← haround (it.link (some added)) ((link_block ..).trans hit), link, memberLinks_append]
    rfl
  keeps it hit := (strs_entry b before after added hit).1
  inner it hit := (strs_entry b before after added hit).2

end Hole

def next (x : Item) : Place → Option Item
  | .member name => x.member name
  | .child index => x.nth index

end Item

/-! ### Steps refine -/

section

variable {α β : Type} {m : Footprint Cell} {y : AllocM β} {Q : α → β → Footprint Cell → Prop}
  {f : Option Nat → HeapM Cell α} {x it : Item} {fill : Item → Item} {name : Option Str}
  {prev next : Option Nat}

end

/-! ### Strings of the items -/

namespace Item

theorem rest_le_cells (x : Item) (name : Option Str) (prev next : Option Nat) :
    optional name + x.rest ≤ (x.link name).cells prev next := by
  rw [cells_link]
  exact Multiset.le_add_left _ _

mutual

/-- The strings lie in the blocks of the items. -/
theorem strs_le : ∀ (x : Item), ∀ s ∈ x.strs, s.footprint ≤ x.rest
  | null _, _, h | bool _ _, _, h | number _ _, _, h => by cases h
  | string _ str _, s, h => by
    rw [List.mem_singleton.1 h]
    exact Multiset.le_add_left _ _
  | array _ items, s, h => (itemStrs_le items _ _ s h).trans (Multiset.le_add_right _ _)
  | object _ ms, s, h => (memberStrs_le ms _ _ s h).trans (Multiset.le_add_right _ _)

theorem itemStrs_le : ∀ (items : List Item) (prev next : Option Nat), ∀ s ∈ itemStrs items,
    s.footprint ≤ chain prev next (links items)
  | [], _, _, _, h => by cases h
  | x :: items, prev, next, s, h => by
    rw [links, chain]
    obtain h | h := List.mem_append.1 h
    · refine ((strs_le x s h).trans ?_).trans (Multiset.le_add_right _ _)
      exact (Multiset.le_add_left _ _).trans (rest_le_cells x none prev _)
    · exact (itemStrs_le items _ _ s h).trans (Multiset.le_add_left _ _)

theorem memberStrs_le : ∀ (ms : List (Str × Item)) (prev next : Option Nat),
    ∀ s ∈ memberStrs ms, s.footprint ≤ chain prev next (memberLinks ms)
  | [], _, _, _, h => by cases h
  | (name, x) :: ms, prev, next, s, h => by
    rw [memberLinks, chain]
    have hcells := rest_le_cells x (some name) prev ((first (memberLinks ms)).or next)
    obtain rfl | h := List.mem_cons.1 h
    · exact ((Multiset.le_add_right _ _).trans hcells).trans (Multiset.le_add_right _ _)
    · obtain h | h := List.mem_append.1 h
      · refine ((strs_le x s h).trans ?_).trans (Multiset.le_add_right _ _)
        exact (Multiset.le_add_left _ _).trans hcells
      · exact (memberStrs_le ms _ _ s h).trans (Multiset.le_add_left _ _)

end

end Item

/-- A pointer stays good while the strings stay. -/
theorem PointsTo.mono {x x' : Item} {q : Option Nat} {s : Option CString} (h : PointsTo x q s)
    (hstrs : x.strs ⊆ x'.strs) : PointsTo x' q s := by
  obtain h | ⟨str, hstr, h⟩ := h
  · exact .inl h
  · exact .inr ⟨str, hstrs hstr, h⟩

section

variable {p : Platform}

end

end Items

end Audd
