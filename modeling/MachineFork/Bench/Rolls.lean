/-!
This module contains random choices. All of them are taken from one sequence of words, one after the
other, so whatever holds for every sequence holds for every generator.
-/

namespace MachineFork.Bench

structure Rolls where
  word : Nat → UInt64
  position : Nat := 0

namespace Rolls

def next (rolls : Rolls) : UInt64 × Rolls :=
  (rolls.word rolls.position, { rolls with position := rolls.position + 1 })

def below (rolls : Rolls) (bound : Nat) : Nat × Rolls :=
  let (word, rolls) := rolls.next
  (word.toNat % bound, rolls)

def byte (rolls : Rolls) : UInt8 × Rolls :=
  let (word, rolls) := rolls.next
  (word.toUInt8, rolls)

end Rolls

end MachineFork.Bench
