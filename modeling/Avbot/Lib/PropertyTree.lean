import Mathlib.Logic.Basic
import Mathlib.Data.Option.Basic

/-!
# Property trees

An ordered tree in the manner of `boost::property_tree`: names of children may repeat, and a path goes through the first child of each name. Writing along a path creates the nodes that are missing, at the end of the list.
-/

inductive PropertyTree (K D : Type) where
  | node (data : D) (children : List (K × PropertyTree K D))

namespace PropertyTree

open List

variable {K D : Type}

def data : PropertyTree K D → D
  | .node d _ => d

def children : PropertyTree K D → List (K × PropertyTree K D)
  | .node _ cs => cs

def leaf (d : D) : PropertyTree K D := .node d []

instance [Inhabited D] : Inhabited (PropertyTree K D) := ⟨leaf default⟩

variable (t : PropertyTree K D) (d : D) (cs : List (K × PropertyTree K D))

@[simp] theorem data_node : (node d cs).data = d := rfl

@[simp] theorem children_node : (node d cs).children = cs := rfl

@[simp] theorem data_leaf : (leaf d : PropertyTree K D).data = d := rfl

@[simp] theorem node_data_children : node t.data t.children = t := by
  cases t
  rfl

variable [DecidableEq K]

def find? (t : PropertyTree K D) (k : K) : Option (PropertyTree K D) :=
  (t.children.find? fun c => c.1 = k).map Prod.snd

def getChild? : PropertyTree K D → List K → Option (PropertyTree K D)
  | t, [] => some t
  | t, k :: ks => (t.find? k).bind fun c => c.getChild? ks

def get? (t : PropertyTree K D) (path : List K) : Option D := (t.getChild? path).map data

@[simp] theorem getChild?_nil : t.getChild? [] = some t := rfl

@[simp] theorem getChild?_cons (k : K) (ks : List K) :
    t.getChild? (k :: ks) = (t.find? k).bind fun c => c.getChild? ks := rfl

theorem get?_single (k : K) : t.get? [k] = (t.find? k).map data := by
  cases h : t.find? k <;> simp [get?, h]

theorem get?_pair (k k' : K) : t.get? [k, k'] = (t.find? k).bind fun c => (c.find? k').map data := by
  cases h : t.find? k with
  | none => simp [get?, h]
  | some c => cases h' : c.find? k' <;> simp [get?, h, h']

variable [Inhabited D]

def alterFirst (k : K) (f : PropertyTree K D → PropertyTree K D) :
    List (K × PropertyTree K D) → List (K × PropertyTree K D)
  | [] => [(k, f default)]
  | c :: cs => if c.1 = k then (k, f c.2) :: cs else c :: alterFirst k f cs

def alterChild (t : PropertyTree K D) (k : K) (f : PropertyTree K D → PropertyTree K D) :
    PropertyTree K D := .node t.data (alterFirst k f t.children)

def put : PropertyTree K D → List K → D → PropertyTree K D
  | t, [], v => .node v t.children
  | t, k :: ks, v => t.alterChild k fun c => c.put ks v

def addChild : PropertyTree K D → List K → PropertyTree K D → PropertyTree K D
  | t, [], _ => t
  | t, [k], c => .node t.data (t.children ++ [(k, c)])
  | t, k :: k' :: ks, c => t.alterChild k fun t' => t'.addChild (k' :: ks) c

def add (t : PropertyTree K D) (path : List K) (v : D) : PropertyTree K D :=
  t.addChild path (leaf v)

theorem add_pair (k k' : K) (v : D) : t.add [k, k'] v = t.alterChild k fun c => c.add [k'] v := rfl

omit [DecidableEq K] in
@[simp] theorem children_default : (default : PropertyTree K D).children = [] := rfl

@[simp] theorem find?_default (k : K) : (default : PropertyTree K D).find? k = none := rfl

theorem find?_alterChild_self (k : K) (f : PropertyTree K D → PropertyTree K D) :
    (t.alterChild k f).find? k = some (f ((t.find? k).getD default)) := by
  obtain ⟨d, cs⟩ := t
  induction cs with
  | nil => simp [alterChild, alterFirst, find?]
  | cons c cs ih =>
    by_cases hc : c.1 = k
    · simp [alterChild, alterFirst, find?, hc]
    · simpa [alterChild, alterFirst, find?, hc] using ih

variable {k k' : K}

theorem find?_alterChild_of_ne (hne : k ≠ k')
    (f : PropertyTree K D → PropertyTree K D) : (t.alterChild k f).find? k' = t.find? k' := by
  obtain ⟨d, cs⟩ := t
  induction cs with
  | nil => simp [alterChild, alterFirst, find?, hne]
  | cons c cs ih =>
    by_cases hc : c.1 = k
    · subst hc
      simp [alterChild, alterFirst, find?, hne]
    · by_cases hc' : c.1 = k'
      · rw [alterChild, children_node, alterFirst, if_neg hc]
        simp [find?, hc']
      · simpa [alterChild, alterFirst, find?, hc, hc'] using ih

theorem alterFirst_alterFirst (k : K) (f g : PropertyTree K D → PropertyTree K D) (cs : List (K × PropertyTree K D)) :
    alterFirst k g (alterFirst k f cs) = alterFirst k (fun c => g (f c)) cs := by
  induction cs with
  | nil => simp [alterFirst]
  | cons c cs ih => by_cases hc : c.1 = k <;> simp [alterFirst, hc, ih]

theorem alterChild_alterChild (k : K) (f g : PropertyTree K D → PropertyTree K D) :
    (t.alterChild k f).alterChild k g = t.alterChild k fun c => g (f c) := by
  simp only [alterChild, data_node, children_node, alterFirst_alterFirst]

theorem forall_mem_alterFirst {f : PropertyTree K D → PropertyTree K D}
    {P : K × PropertyTree K D → Prop} {cs : List (K × PropertyTree K D)}
    (hf : ∀ c, P (k, f c)) (hcs : ∀ c ∈ cs, P c) : ∀ c ∈ alterFirst k f cs, P c := by
  induction cs with
  | nil => simpa [alterFirst] using hf default
  | cons c cs ih =>
    intro x hx
    have hrest := ih fun y hy => hcs y (mem_cons_of_mem _ hy)
    by_cases hc : c.1 = k
    · grind [alterFirst]
    · grind [alterFirst]

@[simp] theorem find?_put_self (k : K) (ks : List K) (v : D) :
    (t.put (k :: ks) v).find? k = some (((t.find? k).getD default).put ks v) := by
  rw [put, find?_alterChild_self]

theorem find?_put_of_ne (hne : k ≠ k') (ks : List K) (v : D) : (t.put (k :: ks) v).find? k' = t.find? k' := by
  rw [put, find?_alterChild_of_ne t hne]

@[simp] theorem data_put_nil (v : D) : (t.put [] v).data = v := rfl

omit [Inhabited D] in
theorem find?_node_append (k k' : K) (c : PropertyTree K D) :
    (node d (cs ++ [(k, c)])).find? k' =
      ((node d cs).find? k').or (if k = k' then some c else none) := by
  simp only [find?, children_node, List.find?_append]
  grind

theorem find?_addChild_single (k k' : K) (c : PropertyTree K D) :
    (t.addChild [k] c).find? k' = (t.find? k').or (if k = k' then some c else none) := by
  rw [addChild, find?_node_append, node_data_children]

theorem find?_addChild_of_ne (hne : k ≠ k') (ks : List K)
    (c : PropertyTree K D) : (t.addChild (k :: ks) c).find? k' = t.find? k' := by
  cases ks with
  | nil => rw [find?_addChild_single, if_neg hne, Option.or_none]
  | cons k₂ ks => rw [addChild, find?_alterChild_of_ne t hne]

end PropertyTree
