/-!
# Deadlines

Times are counted in nanoseconds from some fixed moment on. Their seconds have to fit a
signed word of 64 bits, so not every time limit leads to a deadline.
-/

namespace ApiInventory.Batch

def nanosecondsPerSecond : Nat := 1000000000

/-- Two to the sixty-third power. -/
def secondsBound : Nat := 9223372036854775808

/-- The time a number of seconds after another, if there is such a time. -/
def deadline? (started limitSecs : Nat) : Option Nat :=
  if started / nanosecondsPerSecond + limitSecs < secondsBound then
    some (started + limitSecs * nanosecondsPerSecond)
  else none

end ApiInventory.Batch
