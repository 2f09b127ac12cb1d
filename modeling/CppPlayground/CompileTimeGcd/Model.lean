import CppPlayground.Lib.Division

/-! # `compile_time_gcd`

    `compile_time_gcd.hpp`.  A constant expression is evaluated, and a template is
    instantiated, or the program is rejected; the instantiations are nested at most as deep
    as the compiler goes. -/

namespace CompileTimeGcd

/-- Why a program is rejected. -/
inductive Error where
  | remainderByZero
  | signedOverflow
  | tooDeep
  | noReturn
  deriving DecidableEq, Repr

/-- `a % b` on `uint64_t` -/
def remainder (a b : UInt64) : Except Error UInt64 :=
  if b = 0 then .error .remainderByZero else .ok (a % b)

/-- `compile_time_gcd<a, b>`, with at most `depth` unfoldings of the primary template.  The
    partial specialisation `<a, 0>` is preferred where it matches. -/
def compileTimeGcd : Nat → UInt64 → UInt64 → Except Error UInt64
  | 0, a, b => if b = 0 then .ok a else .error .tooDeep
  | depth + 1, a, b =>
      if b = 0 then .ok a
      else do
        let r ← remainder a b
        compileTimeGcd depth b r

/-- `-a` on `int64_t` -/
def negate (a : Int64) : Except Error Int64 :=
  if a = Int64.minValue then .error .signedOverflow else .ok (-a)

/-- `return compile_time_gcd<static_cast<uint64_t>(a), static_cast<uint64_t>(b)>;` -/
def returnGcd (depth : Nat) (a b : Except Error Int64) : Except Error UInt64 := do
  let a ← a
  let b ← b
  compileTimeGcd depth a.toUInt64 b.toUInt64

/-- The `return` statements of `handle_gcd_signs<a, b>` that are instantiated.  A false
    `if constexpr` discards its block; what follows a block is instantiated whether or not
    the block has returned. -/
def returns (depth : Nat) (a b : Int64) : List (Except Error UInt64) :=
  (if a < 0 then
      (if b < 0 then [returnGcd depth (negate a) (negate b)] else [])
        ++ [returnGcd depth (negate a) (.ok b)]
    else [])
    ++ (if b < 0 then [returnGcd depth (.ok a) (negate b)] else [])
    ++ [returnGcd depth (.ok a) (.ok b)]

/-- Instantiate what is not executed. -/
def instantiateAll : List (Except Error UInt64) → Except Error Unit
  | [] => .ok ()
  | instantiated :: rest => do
      let _ ← instantiated
      instantiateAll rest

/-- A function whose `return` statements are these: the first one is executed, the others
    are instantiated only. -/
def callFunction : List (Except Error UInt64) → Except Error UInt64
  | [] => .error .noReturn
  | executed :: rest => do
      let value ← executed
      instantiateAll rest
      pure value

/-- `handle_gcd_signs<a, b>()` -/
def handleGcdSigns (depth : Nat) (a b : Int64) : Except Error UInt64 :=
  callFunction (returns depth a b)

/-- `compile_time_gcd_signed<a, b>` -/
def compileTimeGcdSigned (depth : Nat) (a b : Int64) : Except Error UInt64 :=
  handleGcdSigns depth a b

example : compileTimeGcd 92 3 5 = .ok 1 := by decide

example : compileTimeGcdSigned 92 (-10) 5 = .ok 5 := by decide

end CompileTimeGcd
