import Audd.JsonParse
import Audd.Lib.Footprint
import Mathlib.Tactic.Abel

/-! The items of vendor/cJSON as they lie in memory.  The children of an item are a doubly linked
list, in which the first one's `prev` points to the last.  An `Item` is a tree of items with the
blocks that they and their strings are in; `Item.value` is the tree that it stands for. -/

namespace Audd

namespace Items

open HeapM

/-! ### Nodes -/

/-- `struct cJSON`, less `valueint`, which is a function of `valuedouble` wherever it is read. -/
structure Node where
  next : Option Nat
  prev : Option Nat
  child : Option Nat
  type : Nat
  valuestring : Option Nat
  valuedouble : CDouble
  string : Option Nat

/-- What `memset` leaves. -/
def Node.zero : Node := ⟨none, none, none, 0, none, .finite 0, none⟩

def cJSON_False : Nat := 1
def cJSON_True : Nat := 2
def cJSON_NULL : Nat := 4
def cJSON_Number : Nat := 8
def cJSON_String : Nat := 16
def cJSON_Array : Nat := 32
def cJSON_Object : Nat := 64
def cJSON_IsReference : Nat := 256
def cJSON_StringIsConst : Nat := 512

/-- A block is an item, or the characters of a string. -/
inductive Cell
  | item (n : Node)
  | char (c : Char)

/-! ### Access -/

def fault {α : Type} (a : α) : HeapM Cell α := fun h => pure (a, h.fault)

/-- What is done on a condition. -/
def whenever (c : Prop) [Decidable c] (x : HeapM Cell Unit) : HeapM Cell Unit :=
  if c then x else pure ()

/-- `*p`. -/
def node (p : Option Nat) : HeapM Cell Node := fun h =>
  match p.bind h.blocks with
  | some [some (.item n)] => pure (n, h)
  | _ => pure (.zero, h.fault)

/-- Fields of `*p` assigned. -/
def update (p : Option Nat) (f : Node → Node) : HeapM Cell Unit := fun h =>
  match p with
  | none => pure ((), h.fault)
  | some b =>
    match h.blocks b with
    | some [some (.item n)] => pure ((), h.set b [some (.item (f n))])
    | _ => pure ((), h.fault)

/-- The characters before the terminator. -/
def readText : List (Option Cell) → Option CString
  | some (.char c) :: rest => if c = '\x00' then some [] else (readText rest).map (c :: ·)
  | _ => none

/-- The string at `p`. -/
def text (p : Option Nat) : HeapM Cell CString := fun h =>
  match (p.bind h.blocks).bind readText with
  | some s => pure (s, h)
  | none => pure ([], h.fault)

/-- `free(p)`, where NULL is allowed. -/
def release (p : Option Nat) : HeapM Cell Unit :=
  match p with
  | none => pure ()
  | some b => free ⟨b, (0 : Nat)⟩

/-- `cJSON_New_Item`. -/
def newItem : HeapM Cell (Option Nat) := do
  match ← malloc 1 with
  | none => pure none
  | some p => do
    store p [.item .zero]
    pure (some p.block)

/-! ### Deletion -/

/-- The loop of `cJSON_Delete`. -/
def deleteFrom : Nat → Option Nat → HeapM Cell Unit
  | _, none => pure ()
  | 0, some _ => fault ()
  | fuel + 1, some b => do
    let item ← node (some b)
    whenever (item.type &&& cJSON_IsReference = 0 ∧ item.child ≠ none)
      (deleteFrom fuel item.child)
    whenever (item.type &&& cJSON_IsReference = 0 ∧ item.valuestring ≠ none) do
      release item.valuestring
      update (some b) fun n => { n with valuestring := none }
    whenever (item.type &&& cJSON_StringIsConst = 0 ∧ item.string ≠ none) do
      release item.string
      update (some b) fun n => { n with string := none }
    release (some b)
    deleteFrom fuel item.next

/-- `cJSON_Delete`. -/
def delete (item : Option Nat) : HeapM Cell Unit := bounded fun fuel => deleteFrom fuel item

/-! ### Trees of items -/

/-- A string that is allocated: its characters, the terminator, and whatever follows. -/
structure Str where
  block : Nat
  text : CString
  slack : List (Option Cell)
  noNul : '\x00' ∉ text

def Str.cells (s : Str) : List (Option Cell) :=
  s.text.map (fun c => some (.char c)) ++ some (.char '\x00') :: s.slack

/-- The block of an item. -/
def entry (b : Nat) (n : Node) : Footprint Cell := {(b, [some (.item n)])}

def Str.footprint (s : Str) : Footprint Cell := {(s.block, s.cells)}

def optional (s : Option Str) : Footprint Cell := (s.map Str.footprint).getD 0

@[simp] theorem optional_none : optional none = 0 := rfl

@[simp] theorem optional_some (s : Str) : optional (some s) = s.footprint := rfl

/-- A string item keeps the number that it had when it was coerced. -/
inductive Item
  | null (block : Nat)
  | bool (block : Nat) (b : Bool)
  | number (block : Nat) (d : CDouble)
  | string (block : Nat) (s : Str) (d : CDouble)
  | array (block : Nat) (items : List Item)
  | object (block : Nat) (members : List (Str × Item))

namespace Item

def block : Item → Nat
  | null b | bool b _ | number b _ | string b _ _ | array b _ | object b _ => b

mutual

/-- The tree that the items stand for. -/
def value : Item → CJson
  | null _ => .null
  | bool _ b => .bool b
  | number _ d => .number d
  | string _ s _ => .string s.text
  | array _ items => .array (values items)
  | object _ members => .object (memberValues members)

def values : List Item → List CJson
  | [] => []
  | item :: items => value item :: values items

def memberValues : List (Str × Item) → List (CString × CJson)
  | [] => []
  | (name, item) :: members => (name.text, value item) :: memberValues members

end

mutual

/-- The strings of the items and their names. -/
def strs : Item → List Str
  | string _ s _ => [s]
  | array _ items => itemStrs items
  | object _ members => memberStrs members
  | _ => []

def itemStrs : List Item → List Str
  | [] => []
  | item :: items => strs item ++ itemStrs items

def memberStrs : List (Str × Item) → List Str
  | [] => []
  | (name, item) :: members => name :: (strs item ++ memberStrs members)

end

end Item

/-! ### Lists of children -/

/-- A child in a list, which decides its `prev` and its `next`, with what else belongs to it. -/
structure Link where
  block : Nat
  node : Node
  owned : Footprint Cell

def Link.cells (l : Link) (prev next : Option Nat) : Footprint Cell :=
  entry l.block { l.node with prev, next } + l.owned

def first (ls : List Link) : Option Nat := ls.head?.map Link.block

def last (ls : List Link) : Option Nat := ls.getLast?.map Link.block

/-- Links one behind the other, between `prev` and `next`. -/
def chain (prev next : Option Nat) : List Link → Footprint Cell
  | [] => 0
  | l :: ls => l.cells prev ((first ls).or next) + chain (some l.block) next ls

namespace Item

/-- An item that has no children. -/
def leaf (name : Option Str) (b type : Nat) (s : Option Str) (d : CDouble) : Link where
  block := b
  node := { Node.zero with
    type, valuestring := s.map Str.block, valuedouble := d, string := name.map Str.block }
  owned := optional s + optional name

/-- An item with its children. -/
def branch (name : Option Str) (b type : Nat) (children : List Link) : Link where
  block := b
  node := { Node.zero with type, child := first children, string := name.map Str.block }
  owned := chain (last children) none children + optional name

mutual

/-- An item as a child of that name, or as one of an array. -/
def link (name : Option Str) : Item → Link
  | null b => leaf name b cJSON_NULL none (.finite 0)
  | bool b value => leaf name b (if value then cJSON_True else cJSON_False) none (.finite 0)
  | number b d => leaf name b cJSON_Number none d
  | string b s d => leaf name b cJSON_String (some s) d
  | array b items => branch name b cJSON_Array (links items)
  | object b members => branch name b cJSON_Object (memberLinks members)

def links : List Item → List Link
  | [] => []
  | item :: items => link none item :: links items

def memberLinks : List (Str × Item) → List Link
  | [] => []
  | (name, item) :: members => link (some name) item :: memberLinks members

end

end Item

/-! ### What the operations do -/

section

variable {α β γ : Type} {m : Footprint Cell} {b : Nat} {n : Node} {y : AllocM β}
  {Q : α → β → Footprint Cell → Prop}

theorem blocks_of_entry {h : Heap Cell} {rest : Footprint Cell} (hm : h.Is (entry b n + m + rest)) :
    h.blocks b = some [some (.item n)] := by
  rw [add_assoc, entry, Multiset.singleton_add] at hm
  exact hm.get

theorem refines_node {f : Node → HeapM Cell α} (hf : Refines (entry b n + m) (f n) y Q) :
    Refines (entry b n + m) (node (some b) >>= f) y Q := by
  intro h rest hm
  have hnode : node (some b) h = pure (n, h) := by
    simp only [node, Option.bind_some, blocks_of_entry hm]
  show ((node (some b) h) >>= fun r => f r.1 r.2).Alike _ y
  rw [hnode]
  exact hf h rest hm

theorem refines_update {f : Unit → HeapM Cell α} {g : Node → Node}
    (hf : Refines (entry b (g n) + m) (f ()) y Q) :
    Refines (entry b n + m) (update (some b) g >>= f) y Q := by
  intro h rest hm
  have hupdate : update (some b) g h = pure ((), h.set b [some (.item (g n))]) := by
    simp only [update, blocks_of_entry hm]
  show ((update (some b) g h) >>= fun r => f r.1 r.2).Alike _ y
  rw [hupdate]
  refine hf _ rest ?_
  rw [add_assoc, entry, Multiset.singleton_add] at hm ⊢
  exact hm.set _

theorem refines_release {block : List (Option Cell)} {f : Unit → HeapM Cell α}
    (hf : Refines m (f ()) y Q) :
    Refines ({(b, block)} + m) (release (some b) >>= f) y Q := by
  refine Refines.seq (m := {(b, block)}) (Q := fun _ _ m' => m' = 0) (refines_free rfl) ?_
  rintro a m' rfl
  rwa [zero_add]

theorem refines_newItem {c : β} {Q : Option Nat → Option β → Footprint Cell → Prop}
    (hnone : Q none none m) (hsome : ∀ b, Q (some b) (some c) (entry b .zero + m)) :
    Refines m newItem (AllocM.copy c) Q := by
  intro h rest hm granted
  cases granted with
  | false => exact ⟨m, hm, hnone⟩
  | true =>
    refine ⟨entry h.next .zero + m, ?_, hsome h.next⟩
    have hnew := hm.alloc (List.replicate 1 none)
    have hwrite : (h.alloc (List.replicate 1 none)).write ⟨h.next, (0 : Nat)⟩ [some (.item .zero)] =
        _ := Heap.write_eq hnew.get (show 0 + 1 ≤ (List.replicate 1 (none : Option Cell)).length by
      simp)
    show ((h.alloc (List.replicate 1 none)).write ⟨h.next, (0 : Nat)⟩ _).Is _
    rw [List.map_singleton, hwrite, add_assoc, entry, Multiset.singleton_add]
    exact hnew.set _

theorem whenever_pos {c : Prop} [Decidable c] (hc : c) (x : HeapM Cell Unit) :
    whenever c x = x := if_pos hc

theorem whenever_neg {c : Prop} [Decidable c] (hc : ¬c) (x : HeapM Cell Unit) :
    whenever c x = pure () := if_neg hc

end

/-! ### Lists of children changed -/

section

variable {α β : Type} {m : Footprint Cell} {y : AllocM β} {Q : α → β → Footprint Cell → Prop}
  {f : Unit → HeapM Cell α} {as bs : List Link} {a : Link} {prev next : Option Nat}

theorem first_append : first (as ++ bs) = (first as).or (first bs) := by
  cases as <;> rfl

theorem last_append : last (as ++ bs) = (last bs).or (last as) := by
  rw [last, last, last, List.getLast?_append]
  cases bs.getLast? <;> rfl

@[simp] theorem first_cons : first (a :: as) = some a.block := rfl

@[simp] theorem last_concat : last (as ++ [a]) = some a.block := by
  rw [last_append]
  rfl

theorem chain_append : chain prev next (as ++ bs) =
    chain prev ((first bs).or next) as + chain ((last as).or prev) next bs := by
  induction as generalizing prev with
  | nil => exact (zero_add _).symm
  | cons a as ih =>
    have hlast : last (a :: as) = (last as).or (some a.block) := @last_append [a] as
    rw [List.cons_append, chain, ih, chain, first_append, hlast, Option.or_assoc, Option.or_assoc,
      Option.some_or, add_assoc]

theorem chain_concat : chain prev next (as ++ [a]) =
    entry a.block { a.node with prev := (last as).or prev, next := next } +
      (a.owned + chain prev (some a.block) as) := by
  rw [chain_append]
  show _ + (Link.cells a _ next + 0) = _
  rw [Link.cells, first_cons, Option.some_or]
  abel

/-- `next` of the last link assigned. -/
theorem refines_setNext {next' : Option Nat}
    (hf : Refines (chain prev next' (as ++ [a]) + m) (f ()) y Q) :
    Refines (chain prev next (as ++ [a]) + m)
      (update (some a.block) (fun c => { c with next := next' }) >>= f) y Q := by
  rw [chain_concat, add_assoc] at hf ⊢
  exact refines_update hf

/-- `prev` of the first link assigned. -/
theorem refines_setPrev {prev' : Option Nat}
    (hf : Refines (chain prev' next (a :: as) + m) (f ()) y Q) :
    Refines (chain prev next (a :: as) + m)
      (update (some a.block) (fun c => { c with prev := prev' }) >>= f) y Q := by
  rw [chain, Link.cells, add_assoc, add_assoc] at hf ⊢
  exact refines_update hf

end

/-! ### What deletion frees -/

/-- What `cJSON_Delete` frees at `p`: an item, its strings, its children and what follows it, where
nothing is marked as somebody else's. -/
inductive Deletable : Option Nat → Footprint Cell → Prop
  | nil : Deletable none 0
  | cons {b : Nat} {n : Node} {value name : Option Str} {inner rest : Footprint Cell} :
      n.type &&& cJSON_IsReference = 0 → n.type &&& cJSON_StringIsConst = 0 →
      n.valuestring = value.map Str.block → n.string = name.map Str.block →
      Deletable n.child inner → Deletable n.next rest →
      Deletable (some b) (entry b n + (optional value + optional name + inner + rest))

section

variable {α β : Type} {m : Footprint Cell} {b fuel : Nat} {n : Node} {y : AllocM β}
  {Q : α → β → Footprint Cell → Prop} {p : Option Nat}

theorem card_entry (b : Nat) (n : Node) : (entry b n).card = 1 := Multiset.card_singleton _

/-- A string of the item freed, and its pointer cleared. -/
theorem refines_clear {c : Prop} [Decidable c] {s : Option Str} {clear : Node → Node}
    {f : Unit → HeapM Cell α} (hc : c ↔ s ≠ none)
    (hf : ∀ n', (s = none → n' = n) → (s ≠ none → n' = clear n) →
      Refines (entry b n' + m) (f ()) y Q) :
    Refines (entry b n + (optional s + m)) (whenever c (do
      release (s.map Str.block)
      update (some b) clear) >>= f) y Q := by
  cases s with
  | none =>
    rw [whenever_neg (by simp [hc]), pure_bind]
    rw [optional, Option.map_none, Option.getD_none, zero_add]
    exact hf n (fun _ => rfl) (fun h => absurd rfl h)
  | some s =>
    rw [whenever_pos (by simp [hc]), bind_assoc]
    refine Refines.cast (n := s.footprint + (entry b n + m)) (by
      rw [optional, Option.map_some, Option.getD_some]
      abel) ?_
    exact refines_release (refines_update (hf _ nofun fun _ => rfl))

theorem deleteFrom_deletes (hd : Deletable p m) (hfuel : m.card < fuel) :
    Refines m (deleteFrom fuel p) (AllocM.done ()) fun _ _ m' => m' = 0 := by
  induction hd generalizing fuel with
  | nil =>
    cases fuel <;> exact Refines.pure rfl
  | @cons b n value name inner rest href hconst hvalue hname _ _ ihchild ihnext =>
    simp only [Multiset.card_add, card_entry] at hfuel
    obtain ⟨fuel, rfl⟩ : ∃ k, fuel = k + 1 := ⟨fuel - 1, by omega⟩
    have hchild : whenever (n.type &&& cJSON_IsReference = 0 ∧ n.child ≠ none)
        (deleteFrom fuel n.child) = deleteFrom fuel n.child := by
      cases hchild : n.child with
      | none =>
        rw [whenever_neg (by simp)]
        cases fuel <;> rfl
      | some c => exact whenever_pos ⟨href, by simp⟩ _
    rw [deleteFrom]
    refine refines_node ?_
    rw [hchild]
    refine Refines.cast (n := inner + (entry b n + (optional value + (optional name + rest))))
      (by abel) (Refines.seq (ihchild (by omega)) ?_)
    rintro _ _ rfl
    rw [zero_add, hvalue]
    refine refines_clear (by simp [href]) fun n' _ _ => ?_
    rw [hname]
    refine refines_clear (by simp [hconst]) fun n'' _ _ => ?_
    refine refines_release ?_
    exact ihnext (by omega)

theorem delete_deletes (hd : Deletable p m) :
    Refines m (delete p) (AllocM.done ()) fun _ _ m' => m' = 0 := by
  rw [← bind_pure (delete p)]
  refine refines_bounded fun fuel hfuel => ?_
  rw [bind_pure]
  exact deleteFrom_deletes hd hfuel

end

/-! ### Items can be deleted -/

/-- A child that can be deleted, wherever it is in a list. -/
structure Link.Free (l : Link) : Prop where
  reference : l.node.type &&& cJSON_IsReference = 0
  const : l.node.type &&& cJSON_StringIsConst = 0
  owned : ∃ value name inner, l.node.valuestring = Option.map Str.block value ∧
    l.node.string = Option.map Str.block name ∧ Deletable l.node.child inner ∧
    l.owned = optional value + optional name + inner

theorem Link.Free.deletable {l : Link} (hl : l.Free) {next : Option Nat} {rest : Footprint Cell}
    (prev : Option Nat) (hrest : Deletable next rest) :
    Deletable (some l.block) (l.cells prev next + rest) := by
  obtain ⟨value, name, inner, hvalue, hname, hinner, howned⟩ := hl.owned
  rw [Link.cells, howned, add_assoc]
  exact .cons hl.reference hl.const hvalue hname hinner hrest

theorem deletable_chain {ls : List Link} (hls : ∀ l ∈ ls, l.Free) (prev : Option Nat) :
    Deletable (first ls) (chain prev none ls) := by
  induction ls generalizing prev with
  | nil => exact .nil
  | cons l ls ih =>
    obtain ⟨hl, hls⟩ := List.forall_mem_cons.1 hls
    rw [chain, Option.or_none]
    exact hl.deletable prev (ih hls _)

namespace Item

theorem free_leaf (name : Option Str) (b : Nat) {type : Nat} (s : Option Str) (d : CDouble)
    (href : type &&& cJSON_IsReference = 0) (hconst : type &&& cJSON_StringIsConst = 0) :
    (leaf name b type s d).Free where
  reference := href
  const := hconst
  owned := ⟨s, name, 0, rfl, rfl, .nil, (add_zero _).symm⟩

theorem free_branch (name : Option Str) (b : Nat) {type : Nat} {children : List Link}
    (href : type &&& cJSON_IsReference = 0) (hconst : type &&& cJSON_StringIsConst = 0)
    (hchildren : ∀ l ∈ children, l.Free) : (branch name b type children).Free where
  reference := href
  const := hconst
  owned := ⟨none, name, chain (last children) none children, rfl, rfl,
    deletable_chain hchildren _, by
      show _ = 0 + optional name + _
      rw [zero_add, add_comm]
      rfl⟩

mutual

theorem free_link (name : Option Str) : ∀ item : Item, (item.link name).Free
  | null b => free_leaf name b none _ rfl rfl
  | bool b true => free_leaf name b none _ rfl rfl
  | bool b false => free_leaf name b none _ rfl rfl
  | number b d => free_leaf name b none d rfl rfl
  | string b s d => free_leaf name b (some s) d rfl rfl
  | array b items => free_branch name b rfl rfl (free_links items)
  | object b members => free_branch name b rfl rfl (free_memberLinks members)

theorem free_links : ∀ items : List Item, ∀ l ∈ links items, l.Free
  | [], _, h => nomatch h
  | item :: items, l, h => by
    rcases List.mem_cons.1 h with rfl | h
    · exact free_link none item
    · exact free_links items l h

theorem free_memberLinks : ∀ members : List (Str × Item), ∀ l ∈ memberLinks members, l.Free
  | [], _, h => nomatch h
  | (name, item) :: members, l, h => by
    rcases List.mem_cons.1 h with rfl | h
    · exact free_link (some name) item
    · exact free_memberLinks members l h

end

end Item

end Items

end Audd
