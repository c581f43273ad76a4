
/-!
# Types

The types that the checker records: primitive types, collections, nullable types, classes and
functions.  A tuple type is the set of its members' types, not a sequence: its member list is kept
in increasing order without repetitions (`Ty.tupleOf`), and equality of types is then equality of
the trees.  The order itself is the one in which messages list the members of a tuple.

A class is named by the identity of its declaration, so two classes of one name stay apart.
-/

namespace TypedScript

/-- the identity of a declaration, counted from one -/
abbrev DeclId := Nat

/-- the type of a parameter, and whether a call may leave its argument out -/
structure Param (τ : Type) where
  type : τ
  optional : Bool
  deriving DecidableEq, Repr

inductive Ty where
  | int
  | long
  | string
  | bool
  | none
  | array (element : Ty)
  | set (element : Ty)
  | dict (key value : Ty)
  | tuple (members : List Ty)
  | nullable (inner : Ty)
  | classOf (id : DeclId) (name : String)
  | function (params : List (Param Ty)) (returns : Ty) (async : Bool)
  deriving Inhabited

/-! ## order -/

namespace Ty

/-- the place of a type's outermost form in the order of types -/
def rank : Ty → Nat
  | int => 0
  | long => 1
  | string => 2
  | bool => 3
  | none => 4
  | array _ => 5
  | set _ => 6
  | dict _ _ => 7
  | tuple _ => 8
  | nullable _ => 9
  | classOf _ _ => 10
  | function _ _ _ => 11

mutual

/-- types are ordered by their outermost form, then component by component -/
def order : Ty → Ty → Ordering
  | array a, array b => order a b
  | set a, set b => order a b
  | dict k v, dict k' v' => (order k k').then (order v v')
  | tuple as, tuple bs => orderList as bs
  | nullable a, nullable b => order a b
  | classOf i n, classOf j m => (compare i j).then (compare n m)
  | function ps r a, function qs s b =>
    (orderParams ps qs).then ((order r s).then (compare a b))
  | a, b => compare a.rank b.rank

/-- lists are ordered like words in a dictionary -/
def orderList : List Ty → List Ty → Ordering
  | [], [] => .eq
  | [], _ :: _ => .lt
  | _ :: _, [] => .gt
  | a :: as, b :: bs => (order a b).then (orderList as bs)

/-- parameters are ordered by type, a required one before an optional one -/
def orderParams : List (Param Ty) → List (Param Ty) → Ordering
  | [], [] => .eq
  | [], _ :: _ => .lt
  | _ :: _, [] => .gt
  | ⟨a, d⟩ :: ps, ⟨b, e⟩ :: qs => ((order a b).then (compare d e)).then (orderParams ps qs)

end

instance : Ord Ty := ⟨order⟩

/-! ## equality -/

mutual

theorem order_eq_iff : ∀ a b : Ty, order a b = .eq ↔ a = b
  | int, b => by cases b <;> simp [order, rank]
  | long, b => by cases b <;> simp [order, rank]
  | string, b => by cases b <;> simp [order, rank]
  | bool, b => by cases b <;> simp [order, rank]
  | none, b => by cases b <;> simp [order, rank]
  | array a, b => by
    cases b <;> simp [order, rank]
    exact order_eq_iff a _
  | set a, b => by
    cases b <;> simp [order, rank]
    exact order_eq_iff a _
  | dict k v, b => by
    cases b <;> simp [order, rank, Ordering.then_eq_eq, order_eq_iff k,
      order_eq_iff v]
  | tuple as, b => by
    cases b <;> simp [order, rank, orderList_eq_iff as]
  | nullable a, b => by
    cases b <;> simp [order, rank]
    exact order_eq_iff a _
  | classOf i n, b => by
    cases b <;> simp [order, rank, Ordering.then_eq_eq]
  | function ps r a, b => by
    cases b <;> simp [order, rank, Ordering.then_eq_eq, orderParams_eq_iff ps,
      order_eq_iff r]

theorem orderList_eq_iff : ∀ as bs : List Ty, orderList as bs = .eq ↔ as = bs
  | [], [] => by simp [orderList]
  | [], _ :: _ => by simp [orderList]
  | _ :: _, [] => by simp [orderList]
  | a :: as, b :: bs => by
    simp [orderList, Ordering.then_eq_eq, order_eq_iff a b, orderList_eq_iff as bs]

theorem orderParams_eq_iff : ∀ ps qs : List (Param Ty), orderParams ps qs = .eq ↔ ps = qs
  | [], [] => by simp [orderParams]
  | [], _ :: _ => by simp [orderParams]
  | _ :: _, [] => by simp [orderParams]
  | ⟨a, d⟩ :: ps, ⟨b, e⟩ :: qs => by
    simp [orderParams, Ordering.then_eq_eq, order_eq_iff a b, orderParams_eq_iff ps qs]

end

/-- equality of types is decided by their order -/
instance : DecidableEq Ty := fun a b => decidable_of_iff _ (order_eq_iff a b)

/-! ## tuples -/

/-- puts a type into an increasing list, unless it is there -/
def insertSorted (t : Ty) : List Ty → List Ty
  | [] => [t]
  | u :: us =>
    match order t u with
    | .lt => t :: u :: us
    | .eq => u :: us
    | .gt => u :: insertSorted t us

/-- the members of a list in increasing order, each once -/
def sortedSet (ts : List Ty) : List Ty := ts.foldl (fun us t => insertSorted t us) []

/-- the type of a tuple with members of the given types; without members it is the empty set -/
def tupleOf (ts : List Ty) : Ty :=
  match sortedSet ts with
  | [] => set none
  | u :: us => tuple (u :: us)

end Ty

/-! ## signatures -/

/-- what a call of a function or a constructor has to respect -/
structure Signature where
  params : List (Param Ty)
  returns : Ty
  async : Bool
  deriving DecidableEq, Inhabited

namespace Signature

def type (s : Signature) : Ty := .function s.params s.returns s.async

/-- how many arguments a call must have -/
def required (s : Signature) : Nat := s.params.countP fun p => !p.optional

end Signature

/-- the signature of a function type -/
def Ty.signature? : Ty → Option Signature
  | .function ps r a => some ⟨ps, r, a⟩
  | _ => Option.none

/-! ## texts -/

namespace Ty

mutual

/-- the text of a type in messages -/
def text : Ty → String
  | int => "int"
  | long => "long"
  | string => "string"
  | bool => "bool"
  | none => "none"
  | array t => "array<" ++ text t ++ ">"
  | set t => "set<" ++ text t ++ ">"
  | dict k v => "dict<" ++ text k ++ ", " ++ text v ++ ">"
  | tuple ts => "tuple<" ++ ", ".intercalate (texts ts) ++ ">"
  | nullable t => text t ++ "?"
  | classOf _ n => n
  | function ps r a =>
    (if a then "async " else "") ++ "fn(" ++ ", ".intercalate (paramTexts ps) ++ ") -> " ++ text r

def texts : List Ty → List String
  | [] => []
  | t :: ts => text t :: texts ts

def paramTexts : List (Param Ty) → List String
  | [] => []
  | ⟨t, _⟩ :: ps => text t :: paramTexts ps

end

theorem texts_eq_map (ts : List Ty) : texts ts = ts.map text := by
  induction ts with
  | nil => rfl
  | cons t ts ih => simp [texts, ih]

theorem paramTexts_eq_map (ps : List (Param Ty)) : paramTexts ps = ps.map fun p => p.type.text := by
  induction ps with
  | nil => rfl
  | cons p ps ih => simp [paramTexts, ih]

end Ty

end TypedScript
