import MiniBasic.Machine
import MiniBasic.Proofs.Related
import MiniBasic.Proofs.Spelling.Tree

/-!
# Scopes and the heap under respelling

Scopes are keyed by folded names, and the heap keeps no names at all. So respelling a name changes
neither what a scope does nor what an action on the heap does; only the error of a failing action
may quote the other spelling.
-/

namespace MiniBasic

/-! ## Names that differ in spelling -/

namespace Scope

theorem get?_sameName {a b : String} (h : Text.foldCase a = Text.foldCase b) (s : Scope) :
    s.get? a = s.get? b := by
  rw [get?, get?, h]

theorem set_sameName {a b : String} (h : Text.foldCase a = Text.foldCase b) (s : Scope)
    (value : Value) : s.set a value = s.set b value := by
  rw [set, set, h]

theorem contains_sameName {a b : String} (h : Text.foldCase a = Text.foldCase b) (s : Scope) :
    s.contains a = s.contains b := by
  rw [contains, contains, h]

end Scope

namespace Environment

variable {a b : String}

theorem get?_sameName (h : Text.foldCase a = Text.foldCase b) (env : Environment) :
    env.get? a = env.get? b := by
  simp only [get?, Scope.get?_sameName h]

theorem declare_sameName (h : Text.foldCase a = Text.foldCase b) (env : Environment)
    (value : Value) : env.declare a value = env.declare b value := by
  simp only [declare, defineGlobal, Scope.set_sameName h]

theorem assign_sameName (h : Text.foldCase a = Text.foldCase b) (env : Environment)
    (value : Value) :
    env.assign a value = env.assign b value := by
  simp only [assign, defineGlobal, Scope.contains_sameName h, Scope.set_sameName h,
    declare_sameName h]

theorem getOrDeclare_sameName (h : Text.foldCase a = Text.foldCase b) (env : Environment) :
    env.getOrDeclare a = env.getOrDeclare b := by
  simp only [getOrDeclare, get?_sameName h, declare_sameName h]

theorem procedure?_sameName (h : Text.foldCase a = Text.foldCase b) (env : Environment) :
    env.procedure? a = env.procedure? b := by
  rw [procedure?, procedure?, h]

end Environment

/-! ## Actions on the heap -/

namespace Heap.Action

variable {α β : Type} {f : String → String}

/-- Two actions do the same, and fail with the same error up to spelling. -/
def Alike (f : String → String) (m m' : Action α) : Prop :=
  Related Eq (fun d e ↦ d.respell f = e.respell f) Eq m m'

theorem Alike.refl (m : Action α) : Alike f m m := by
  rintro h _ rfl
  cases m h with
  | ok a h => exact .ok rfl rfl
  | error e h => exact .error rfl rfl

theorem Alike.throw {d e : RuntimeError} (h : d.respell f = e.respell f) :
    Alike f (MonadExcept.throw d : Action α) (MonadExcept.throw e) :=
  Related.throw h

/-- Two outcomes are the same up to the spelling of an error. -/
inductive SameExcept (f : String → String) : Except RuntimeError α → Except RuntimeError α → Prop
  | ok (a : α) : SameExcept f (.ok a) (.ok a)
  | error {d e : RuntimeError} (h : d.respell f = e.respell f) : SameExcept f (.error d) (.error e)

theorem SameExcept.map {x y : Except RuntimeError α} (h : SameExcept f x y) (g : α → β) :
    SameExcept f (x.map g) (y.map g) := by
  cases h with
  | ok a => exact .ok (g a)
  | error h => exact .error h

theorem Alike.ofExcept {x y : Except RuntimeError α} (h : SameExcept f x y) :
    Alike f (ofExcept x) (ofExcept y) := by
  cases h with
  | ok a => exact .refl _
  | error h => exact .throw h

theorem sameExcept_onlyIndex {a b : String} (h : f a = f b) (indices : List Value) :
    SameExcept f (onlyIndex a indices) (onlyIndex b indices) := by
  match indices with
  | [] => exact .error (by simp only [RuntimeError.respell, h])
  | [index] => exact .ok index
  | _ :: _ :: _ => exact .error (by simp only [RuntimeError.respell, h])

theorem sameExcept_readPath {a b : String} (h : f a = f b) (heap : Heap) (v : Value)
    (indices : List Value) :
    SameExcept f (heap.readPath a v indices) (heap.readPath b v indices) := by
  induction indices generalizing v with
  | nil => simpa only [readPath] using .ok v
  | cons index rest ih =>
    cases v with
    | array id => simpa only [readPath] using ih _
    | dictionary id => simpa only [readPath] using ih _
    | _ => exact .error (by simp only [RuntimeError.respell, h])

theorem sameExcept_read {a b : String} (h : f a = f b) (heap : Heap) (container : Value)
    (indices : List Value) :
    SameExcept f (heap.read a container indices) (heap.read b container indices) := by
  cases container with
  | array id => exact sameExcept_readPath h heap (.array id) indices
  | dictionary id => exact (sameExcept_onlyIndex h indices).map _
  | collection id => exact (sameExcept_onlyIndex h indices).map _
  | _ => exact .error (by simp only [RuntimeError.respell, h])

theorem Alike.write {a b : String} (h : f a = f b) (container : Value) (indices : List Value)
    (value : Value) :
    Alike f (Action.write a container indices value) (Action.write b container indices value) := by
  cases container with
  | array id =>
    unfold Action.write
    cases indices.getLast? with
    | some last => exact .refl _
    | none => exact .throw (by simp only [RuntimeError.respell, AssignmentFault.respell, h])
  | dictionary id =>
    refine Related.bind (Alike.ofExcept (sameExcept_onlyIndex h indices)) ?_
    rintro key _ rfl
    exact Alike.refl _
  | _ => exact .throw (by simp only [RuntimeError.respell, h])

theorem Alike.instantiate {a b : String} (hf : Text.Folding f) (h : f a = f b) :
    Alike f (Action.instantiate a) (Action.instantiate b) := by
  unfold Action.instantiate
  rw [hf.sameName h]
  split
  · exact .refl _
  · exact .refl _
  · exact .refl _
  · exact .throw (by simp only [RuntimeError.respell, h])

theorem callMethod?_sameName {a b : String} (h : Text.foldCase a = Text.foldCase b)
    (object : Value) (args : List Value) :
    callMethod? object a args = callMethod? object b args := by
  simp only [callMethod?, Dictionary.Method.ofName?, Collection.Method.ofName?, Text.sameWord, h]

end Heap.Action

end MiniBasic
