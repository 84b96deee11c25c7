/-!
# OutputChannel — the values a program puts out

The channel keeps the latest 4096 values. They are held newest first, and older ones are dropped
only when twice that many have gathered, so that a push costs constant time on average. The view
is `values`: the kept values, oldest first.
-/

namespace TernaryConsole

structure OutputChannel where
  newestFirst : List Int := []
  /-- The length of `newestFirst`. -/
  held : Nat := 0
  deriving DecidableEq, Repr

namespace OutputChannel

/-- How many values are kept. -/
def capacity : Nat := 4096

def empty : OutputChannel := {}

def push (channel : OutputChannel) (value : Int) : OutputChannel :=
  if channel.held < 2 * capacity then
    ⟨value :: channel.newestFirst, channel.held + 1⟩
  else
    ⟨value :: channel.newestFirst.take capacity, capacity + 1⟩

/-- The latest values, oldest first. -/
def values (channel : OutputChannel) : List Int :=
  (channel.newestFirst.take capacity).reverse

instance : Inhabited OutputChannel := ⟨empty⟩

/-! ## Laws -/

theorem values_empty : empty.values = [] := rfl

/-- A push puts the value last; the oldest value leaves a full channel. -/
theorem values_push (channel : OutputChannel) (value : Int) :
    (channel.push value).values =
      ((value :: channel.values.reverse).take capacity).reverse := by
  unfold push values
  split <;> simp [List.take_cons (show 0 < capacity by decide), List.take_take]

end OutputChannel

end TernaryConsole
