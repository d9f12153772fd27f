/-!
Ordered forests with labelled nodes. A forest is its first tree, given by label and children, and the
trees after it, so that every function on forests is one structural recursion.
-/
namespace SheetLint

inductive Forest (α : Type) where
  | nil
  | cons (label : α) (children next : Forest α)
  deriving DecidableEq, Repr

namespace Forest
variable {α β : Type}

def isEmpty : Forest α → Bool
  | nil => true
  | cons .. => false

def labels : Forest α → List α
  | nil => []
  | cons a children next => a :: (labels children ++ labels next)

def roots : Forest α → List α
  | nil => []
  | cons a _ next => a :: roots next

def size : Forest α → Nat
  | nil => 0
  | cons _ children next => 1 + size children + size next

def map (f : α → β) : Forest α → Forest β
  | nil => nil
  | cons a children next => cons (f a) (map f children) (map f next)

def append : Forest α → Forest α → Forest α
  | nil, other => other
  | cons a children next, other => cons a children (append next other)

instance : Append (Forest α) := ⟨append⟩

def ofTrees : List (α × Forest α) → Forest α
  | [] => nil
  | (a, children) :: rest => cons a children (ofTrees rest)

@[simp] theorem nilAppend (f : Forest α) : nil ++ f = f := rfl

@[simp] theorem consAppend (a : α) (children next f : Forest α) :
    cons a children next ++ f = cons a children (next ++ f) := rfl

@[simp] theorem appendNil (f : Forest α) : f ++ nil = f := by
  induction f with
  | nil => rfl
  | cons a children next _ ih => rw [consAppend, ih]

theorem appendAssoc (f g h : Forest α) : f ++ g ++ h = f ++ (g ++ h) := by
  induction f with
  | nil => rfl
  | cons a children next _ ih => rw [consAppend, consAppend, consAppend, ih]

@[simp] theorem labelsAppend (f g : Forest α) : (f ++ g).labels = f.labels ++ g.labels := by
  induction f with
  | nil => rfl
  | cons a children next _ ih => simp [labels, ih]

@[simp] theorem rootsAppend (f g : Forest α) : (f ++ g).roots = f.roots ++ g.roots := by
  induction f with
  | nil => rfl
  | cons a children next _ ih => simp [roots, ih]

@[simp] theorem labelsMap (f : α → β) (t : Forest α) : (t.map f).labels = t.labels.map f := by
  induction t with
  | nil => rfl
  | cons a children next ihc ihn => simp [map, labels, ihc, ihn]

theorem labelsLength (f : Forest α) : f.labels.length = f.size := by
  induction f with
  | nil => rfl
  | cons a children next ihc ihn => simp [labels, size, ihc, ihn]; omega

end Forest
end SheetLint
