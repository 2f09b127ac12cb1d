import Mathlib.Data.List.Basic

/-! # Behaviours: what comes of the calls of an object

    An object that is called answers, and changes its state.  Its behaviour is what a user
    sees of that: the answer to a call, after the calls before it. -/

namespace Reactive

variable {S T A A' B B' : Type}

/-- The answer to a call, after the calls before it, the first one first. -/
abbrev Behaviour (A B : Type) : Type := List A → A → B

/-- The behaviour of a state, of something with this reaction to a call. -/
def behaviour (react : S → A → B × S) : S → Behaviour A B
  | s, [], a => (react s a).1
  | s, b :: earlier, a => behaviour react (react s b).2 earlier a

/-- What is left of a behaviour after a call. -/
def Behaviour.after (b : Behaviour A B) (a : A) : Behaviour A B := fun earlier => b (a :: earlier)

/-- The behaviour that does not depend on earlier calls. -/
def Behaviour.always (answer : A → B) : Behaviour A B := fun _ a => answer a

/-- A behaviour behind a translation of the calls and of the answers. -/
def Behaviour.translate (f : A → A') (g : B' → B) (b : Behaviour A' B') : Behaviour A B :=
  fun earlier a => g (b (earlier.map f) (f a))

variable {react : S → A → B × S}

theorem behaviour_now (s : S) (a : A) : behaviour react s [] a = (react s a).1 := rfl

theorem behaviour_after (s : S) (a : A) :
    behaviour react (react s a).2 = (behaviour react s).after a := rfl

/-- A state that calls do not change. -/
theorem behaviour_always {s : S} {answer : A → B} (h : ∀ a, react s a = (answer a, s)) :
    behaviour react s = Behaviour.always answer := by
  funext earlier a
  induction earlier with
  | nil => rw [behaviour_now, h]; rfl
  | cons b earlier ih => rw [behaviour, h, ih]; rfl

/-- **An object that hands its calls on** behaves as the one inside, translated. -/
theorem behaviour_translate {inner : T → A' → B' × T} {h : T → S} {f : A → A'} {g : B' → B}
    (hreact : ∀ t a, react (h t) a = (g (inner t (f a)).1, h (inner t (f a)).2)) (t : T) :
    behaviour react (h t) = (behaviour inner t).translate f g := by
  funext earlier a
  induction earlier generalizing t with
  | nil => rw [behaviour_now, hreact]; rfl
  | cons b earlier ih => rw [behaviour, hreact, ih]; rfl

end Reactive
