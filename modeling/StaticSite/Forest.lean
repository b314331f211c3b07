/-! Ordered forests of labelled nodes.

A forest is empty, or a first node with its children, followed by the rest. Document order visits a
node before its children and its children before the rest. -/

namespace StaticSite

universe u v

inductive Forest (α : Type u) where
  | nil
  | node (label : α) (children rest : Forest α)
  deriving DecidableEq, Repr, Inhabited

namespace Forest

variable {α : Type u} {β : Type v}

def append : Forest α → Forest α → Forest α
  | nil, g => g
  | node a cs fs, g => node a cs (append fs g)

instance : Append (Forest α) := ⟨append⟩

@[simp] theorem nil_append (f : Forest α) : nil ++ f = f := rfl

@[simp] theorem node_append (a : α) (cs fs g : Forest α) :
    node a cs fs ++ g = node a cs (fs ++ g) := rfl

@[simp] theorem append_nil (f : Forest α) : f ++ nil = f := by
  induction f with
  | nil => rfl
  | node a cs fs _ ih => rw [node_append, ih]

theorem append_assoc (f g h : Forest α) : f ++ g ++ h = f ++ (g ++ h) := by
  induction f with
  | nil => rfl
  | node a cs fs _ ih => rw [node_append, node_append, node_append, ih]

/-- The forest of one node. -/
def tree (a : α) (children : Forest α) : Forest α := node a children nil

def map (f : α → β) : Forest α → Forest β
  | nil => nil
  | node a cs fs => node (f a) (map f cs) (map f fs)

/-- The labels in document order. -/
def labels : Forest α → List α
  | nil => []
  | node a cs fs => a :: (labels cs ++ labels fs)

@[simp] theorem labels_append (f g : Forest α) : (f ++ g).labels = f.labels ++ g.labels := by
  induction f with
  | nil => rfl
  | node a cs fs _ ih => simp [labels, ih]

/-- The first node with a property in document order, with its children. -/
def find? (p : α → Bool) : Forest α → Option (α × Forest α)
  | nil => none
  | node a cs fs =>
    if p a then some (a, cs)
    else match find? p cs with
      | some r => some r
      | none => find? p fs

/-- Puts `f` of its children in place of the first node with a property, in document order; none
if there is no such node. -/
def replaceFirst? (p : α → Bool) (f : Forest α → Forest α) : Forest α → Option (Forest α)
  | nil => none
  | node a cs fs =>
    if p a then some (f cs ++ fs)
    else match replaceFirst? p f cs with
      | some cs => some (node a cs fs)
      | none => (replaceFirst? p f fs).map (node a cs)

/-- Changes the children of the first node with a property, in document order; none if there is
no such node. -/
def changeFirst? (p : α → Bool) (f : Forest α → Forest α) : Forest α → Option (Forest α)
  | nil => none
  | node a cs fs =>
    if p a then some (node a (f cs) fs)
    else match changeFirst? p f cs with
      | some cs => some (node a cs fs)
      | none => (changeFirst? p f fs).map (node a cs)

/-- Like `replaceFirst?`, but for nodes that lie below another. -/
def replaceBelow? (p : α → Bool) (f : Forest α → Forest α) : Forest α → Option (Forest α)
  | nil => none
  | node a cs fs =>
    match replaceFirst? p f cs with
    | some cs => some (node a cs fs)
    | none => (replaceBelow? p f fs).map (node a cs)

/-- Nodes without children. -/
def ofList : List α → Forest α
  | [] => nil
  | a :: as => node a nil (ofList as)

/-- Labels paired with numbers in document order from `n`, and the first number left. -/
def number (n : Nat) : Forest α → Forest (Nat × α) × Nat
  | nil => (nil, n)
  | node a cs fs =>
    let (cs, m) := number (n + 1) cs
    let (fs, k) := number m fs
    (node (n, a) cs fs, k)

end Forest

end StaticSite
