import MachineFork.Engine.Basic
import MachineFork.Proofs.Text.Numerals

/-!
This module contains which environment variables make a configuration, and which one. Each variable
that is set has to hold a number, in a range that is checked when all of them have been read.
-/

namespace MachineFork

theorem bind_eq_ok_iff {ε α β : Type} {x : Except ε α} {f : α → Except ε β} {b : β} :
    x >>= f = .ok b ↔ ∃ a, x = .ok a ∧ f a = .ok b := by
  cases x <;> simp [bind, Except.bind]

theorem bind_eq_error_iff {ε α β : Type} {x : Except ε α} {f : α → Except ε β} {e : ε} :
    x >>= f = .error e ↔ x = .error e ∨ ∃ a, x = .ok a ∧ f a = .error e := by
  cases x <;> simp [bind, Except.bind]

namespace Config

variable {lookup : String → Option String} {key value : String} {limit : Nat} {n? : Option Nat}
variable {config : Config} {error : ConfigError}

inductive Reads (lookup : String → Option String) (key : String) (limit : Nat) : Option Nat → Prop
  | unset (unset : lookup key = none) : Reads lookup key limit none
  | holds {value : String} {n : Nat} (set : lookup key = some value)
    (holds : Text.Holds value.toList n) (lt : n < limit) : Reads lookup key limit (some n)

def Unreadable (lookup : String → Option String) (key : String) (limit : Nat) : Prop :=
  ∀ n?, ¬Reads lookup key limit n?

structure Denotes (lookup : String → Option String) (config : Config) : Prop where
  preferredSize : ∃ n?, Reads lookup sizeKey UInt64.size n? ∧
    config.preferredSize = n?.getD ({} : Config).preferredSize
  shrinkAfter : ∃ n?, Reads lookup shrinkKey UInt32.size n? ∧
    config.shrinkAfter = n?.getD ({} : Config).shrinkAfter
  maxForkDepth : Reads lookup depthKey UInt32.size config.maxForkDepth

/--
What is wrong with the variables. Of several faults the first one counts, and a number that is out of
range counts only if there are numbers in all variables that are set.
-/
inductive Fault (lookup : String → Option String) : ConfigError → Prop
  | preferredSize {value : String} (set : lookup sizeKey = some value)
    (unreadable : Unreadable lookup sizeKey UInt64.size) : Fault lookup (.unparsable sizeKey value)
  | shrinkAfter {size? : Option Nat} {value : String}
    (size : Reads lookup sizeKey UInt64.size size?) (set : lookup shrinkKey = some value)
    (unreadable : Unreadable lookup shrinkKey UInt32.size) :
    Fault lookup (.unparsable shrinkKey value)
  | maxForkDepth {size? saves? : Option Nat} {value : String}
    (size : Reads lookup sizeKey UInt64.size size?)
    (saves : Reads lookup shrinkKey UInt32.size saves?) (set : lookup depthKey = some value)
    (unreadable : Unreadable lookup depthKey UInt32.size) :
    Fault lookup (.unparsable depthKey value)
  | sizeTooLarge {config : Config} (denotes : Denotes lookup config)
    (large : maxPreferredSize < config.preferredSize) :
    Fault lookup (.sizeTooLarge config.preferredSize)
  | zeroDepth {config : Config} (denotes : Denotes lookup config)
    (small : config.preferredSize ≤ maxPreferredSize) (zero : config.maxForkDepth = some 0) :
    Fault lookup .zeroDepth

/-! One variable. -/

theorem reads_of_none (h : lookup key = none) : Reads lookup key limit n? ↔ n? = none := by
  constructor
  · intro hreads
    cases hreads with
    | unset => rfl
    | holds hset =>
      rw [h] at hset
      contradiction
  · rintro rfl
    exact .unset h

theorem reads_of_some (h : lookup key = some value) :
    Reads lookup key limit n? ↔
      ∃ n, n? = some n ∧ Text.Decimal.unsigned? limit (Text.trim value.toList) = some n := by
  simp only [Text.unsigned?_trim_eq_some_iff]
  constructor
  · intro hreads
    cases hreads with
    | unset hunset =>
      rw [h] at hunset
      contradiction
    | holds hset hholds hlt =>
      rw [h, Option.some.injEq] at hset
      subst hset
      exact ⟨_, rfl, hholds, hlt⟩
  · rintro ⟨n, rfl, hholds, hlt⟩
    exact .holds h hholds hlt

variable {α : Type} {default a : α} {inject : Nat → α}

theorem parse_eq_ok_iff :
    parse lookup key limit default inject = .ok a ↔
      ∃ n?, Reads lookup key limit n? ∧ n?.elim default inject = a := by
  unfold parse
  split
  · next hnone => simp [reads_of_none hnone]
  · next value hsome =>
    simp only [reads_of_some hsome]
    split
    · next n hn => simp [hn]
    · next hn => simp [hn]

theorem parse_id_eq_ok_iff {default n : Nat} :
    parse lookup key limit default id = .ok n ↔
      ∃ n?, Reads lookup key limit n? ∧ n?.getD default = n := by
  have hgetD (n? : Option Nat) : n?.elim default id = n?.getD default := by
    cases n? <;> rfl
  simp only [parse_eq_ok_iff, hgetD]

theorem parse_some_eq_ok_iff :
    parse lookup key limit none some = .ok n? ↔ Reads lookup key limit n? := by
  have hself (n? : Option Nat) : n?.elim none some = n? := by
    cases n? <;> rfl
  simp only [parse_eq_ok_iff, hself, exists_eq_right]

theorem parse_eq_error_iff :
    parse lookup key limit default inject = .error error ↔
      ∃ value, lookup key = some value ∧ Unreadable lookup key limit ∧
        .unparsable key value = error := by
  unfold parse Unreadable
  split
  · next hnone => simp [hnone]
  · next value hsome =>
    simp only [reads_of_some hsome]
    split
    · next n hn => simp [hn]
    · next hn => simp [hn, hsome]

/-! All variables. -/

theorem validate_eq_ok_iff :
    config.validate = .ok () ↔
      config.preferredSize ≤ maxPreferredSize ∧ config.maxForkDepth ≠ some 0 := by
  unfold validate
  split
  · next hlarge => simp [Nat.not_le.mpr hlarge]
  · next hsmall =>
    rw [Nat.not_lt] at hsmall
    split
    · next hzero => simp [hzero]
    · next hpos => simp [hsmall, hpos]

theorem validate_eq_error_iff :
    config.validate = .error error ↔
      maxPreferredSize < config.preferredSize ∧ .sizeTooLarge config.preferredSize = error ∨
        config.preferredSize ≤ maxPreferredSize ∧ config.maxForkDepth = some 0 ∧
          .zeroDepth = error := by
  unfold validate
  split
  · next hlarge => simp [hlarge, Nat.not_le.mpr hlarge]
  · next hsmall =>
    have hle := Nat.not_lt.mp hsmall
    split
    · next hzero => simp [hsmall, hle, hzero]
    · next hpos => simp [hsmall, hpos]

theorem Denotes.of_reads {size? saves? depth? : Option Nat}
    (hsize : Reads lookup sizeKey UInt64.size size?)
    (hsaves : Reads lookup shrinkKey UInt32.size saves?)
    (hdepth : Reads lookup depthKey UInt32.size depth?) :
    Denotes lookup
      { preferredSize := size?.getD ({} : Config).preferredSize
        shrinkAfter := saves?.getD ({} : Config).shrinkAfter
        maxForkDepth := depth? } :=
  ⟨⟨size?, hsize, rfl⟩, ⟨saves?, hsaves, rfl⟩, hdepth⟩

theorem ofLookup_eq_ok_iff :
    ofLookup lookup = .ok config ↔ Denotes lookup config ∧ config.validate = .ok () := by
  simp only [ofLookup, bind_eq_ok_iff, parse_id_eq_ok_iff, parse_some_eq_ok_iff]
  constructor
  · rintro ⟨size, ⟨size?, hsize, rfl⟩, saves, ⟨saves?, hsaves, rfl⟩, depth?, hdepth, _, hvalid,
      hconfig⟩
    cases hconfig
    exact ⟨.of_reads hsize hsaves hdepth, hvalid⟩
  · rintro ⟨⟨⟨size?, hsize, hpreferred⟩, ⟨saves?, hsaves, hshrink⟩, hdepth⟩, hvalid⟩
    exact ⟨_, ⟨size?, hsize, hpreferred.symm⟩, _, ⟨saves?, hsaves, hshrink.symm⟩, _, hdepth, (),
      hvalid, rfl⟩

theorem ofLookup_eq_error_iff : ofLookup lookup = .error error ↔ Fault lookup error := by
  simp only [ofLookup, bind_eq_error_iff, parse_id_eq_ok_iff, parse_some_eq_ok_iff,
    parse_eq_error_iff, validate_eq_error_iff]
  constructor
  · rintro (⟨value, hset, hunreadable, rfl⟩ | ⟨size, ⟨size?, hsize, rfl⟩,
      ⟨value, hset, hunreadable, rfl⟩ | ⟨saves, ⟨saves?, hsaves, rfl⟩,
      ⟨value, hset, hunreadable, rfl⟩ | ⟨depth?, hdepth,
      (⟨hlarge, rfl⟩ | ⟨hsmall, hzero, rfl⟩) | ⟨-, -, hreturn⟩⟩⟩⟩)
    · exact .preferredSize hset hunreadable
    · exact .shrinkAfter hsize hset hunreadable
    · exact .maxForkDepth hsize hsaves hset hunreadable
    · exact .sizeTooLarge (.of_reads hsize hsaves hdepth) hlarge
    · exact .zeroDepth (.of_reads hsize hsaves hdepth) hsmall hzero
    · contradiction
  · intro h
    cases h with
    | preferredSize hset hunreadable => exact .inl ⟨_, hset, hunreadable, rfl⟩
    | shrinkAfter hsize hset hunreadable =>
      exact .inr ⟨_, ⟨_, hsize, rfl⟩, .inl ⟨_, hset, hunreadable, rfl⟩⟩
    | maxForkDepth hsize hsaves hset hunreadable =>
      exact .inr ⟨_, ⟨_, hsize, rfl⟩, .inr ⟨_, ⟨_, hsaves, rfl⟩,
        .inl ⟨_, hset, hunreadable, rfl⟩⟩⟩
    | sizeTooLarge hdenotes hlarge =>
      obtain ⟨⟨size?, hsize, hpreferred⟩, ⟨saves?, hsaves, hshrink⟩, hdepth⟩ := hdenotes
      exact .inr ⟨_, ⟨size?, hsize, hpreferred.symm⟩, .inr ⟨_, ⟨saves?, hsaves, hshrink.symm⟩,
        .inr ⟨_, hdepth, .inl (.inl ⟨hlarge, rfl⟩)⟩⟩⟩
    | zeroDepth hdenotes hsmall hzero =>
      obtain ⟨⟨size?, hsize, hpreferred⟩, ⟨saves?, hsaves, hshrink⟩, hdepth⟩ := hdenotes
      exact .inr ⟨_, ⟨size?, hsize, hpreferred.symm⟩, .inr ⟨_, ⟨saves?, hsaves, hshrink.symm⟩,
        .inr ⟨_, hdepth, .inl (.inr ⟨hsmall, hzero, rfl⟩)⟩⟩⟩

/--
The variables make a configuration exactly when each of them that is set holds a number of its width,
the size is not too large and the depth is not zero. It has these numbers, and defaults in other
places, and an engine can be made with it. Otherwise the error tells what is wrong first.
-/
theorem ofLookup_iff {ι : Type} (lookup : String → Option String) :
    (∀ config, ofLookup lookup = .ok config ↔
      Denotes lookup config ∧ config.preferredSize ≤ maxPreferredSize ∧
        config.maxForkDepth ≠ some 0) ∧
    (∀ config, ofLookup lookup = .ok config → Engine.new (ι := ι) config = .ok { config }) ∧
    ∀ error, ofLookup lookup = .error error ↔ Fault lookup error := by
  refine ⟨?_, ?_, ?_⟩
  · intro config
    rw [ofLookup_eq_ok_iff, validate_eq_ok_iff]
  · intro config h
    rw [Engine.new, (ofLookup_eq_ok_iff.mp h).2]
  · intro error
    exact ofLookup_eq_error_iff

def padded : String → Option String
  | "PATHFORK_STATE_BUFFER_SIZE" => some "\t+0004096"
  | "PATHFORK_MAX_FORK_DEPTH" => some " 12\u3000"
  | _ => none

theorem ofLookup_iff_padded :
    ofLookup padded = .ok ⟨4096, 4, some 12⟩ ∧ Denotes padded ⟨4096, 4, some 12⟩ ∧
      Engine.new (ι := Unit) ⟨4096, 4, some 12⟩ = .ok { config := ⟨4096, 4, some 12⟩ } := by
  have h : ofLookup padded = .ok ⟨4096, 4, some 12⟩ := by decide +kernel
  obtain ⟨hok, hnew, -⟩ := ofLookup_iff (ι := Unit) padded
  exact ⟨h, ((hok _).mp h).1, hnew _ h⟩

end Config

end MachineFork
