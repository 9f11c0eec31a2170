import MachineFork.Bench.Run
import MachineFork.Proofs.Bench.Reports
import MachineFork.Proofs.Engine.Configs

/-!
This module contains how a whole benchmark ends. Whatever is rolled, and whatever the clock shows,
the run of a valid configuration on a disk with sectors goes through all its rounds and has a sound
report. Only when there have been so many forks that there are no slots any more, it ends early.
-/

namespace MachineFork

namespace Bench

open MonadAttach

variable {m : Type → Type} [MonadAttach m]
variable {α β : Type} {attempts : Nat} {P : α → Prop} {Q : β → Prop}

def AlwaysDelivers (attempts : Nat) (P : α → Prop) (x : ExceptT Failure m α) : Prop :=
  ∀ result, CanReturn x.run result → Delivers attempts P result

namespace AlwaysDelivers

theorem mono {x : ExceptT Failure m α} {more : Nat} (h : AlwaysDelivers attempts P x)
    (hle : attempts ≤ more) : AlwaysDelivers more P x := by
  intro result hresult
  have hdelivers := h result hresult
  cases result with
  | ok value => exact hdelivers
  | error failure => exact hdelivers.mono hle

variable [Monad m] [LawfulMonad m] [LawfulMonadAttach m]

theorem ofExcept {x : Except Failure α} (h : Delivers attempts P x) :
    AlwaysDelivers attempts P (liftM x : ExceptT Failure m α) := by
  intro result hresult
  obtain rfl := LawfulMonadAttach.eq_of_canReturn_pure hresult
  exact h

theorem pure {value : α} (h : P value) :
    AlwaysDelivers attempts P (pure value : ExceptT Failure m α) :=
  ofExcept (x := .ok value) h

theorem throw {failure : Failure} (h : Exhausted attempts failure) :
    AlwaysDelivers attempts P (throw failure : ExceptT Failure m α) :=
  ofExcept (x := .error failure) h

theorem lift (x : m α) : AlwaysDelivers attempts (CanReturn x) (liftM x : ExceptT Failure m α) := by
  intro result hresult
  obtain ⟨value, hvalue, rfl⟩ := LawfulMonadAttach.canReturn_map_imp' hresult
  exact hvalue

theorem bind {x : ExceptT Failure m α} {f : α → ExceptT Failure m β}
    (hx : AlwaysDelivers attempts P x)
    (hf : ∀ value, P value → AlwaysDelivers attempts Q (f value)) :
    AlwaysDelivers attempts Q (x >>= f) := by
  intro result hresult
  rw [ExceptT.run_bind] at hresult
  obtain ⟨first, hfirst, hrest⟩ := LawfulMonadAttach.canReturn_bind_imp' hresult
  have hdelivers := hx first hfirst
  cases first with
  | ok value => exact hf value hdelivers result hrest
  | error failure =>
    obtain rfl := LawfulMonadAttach.eq_of_canReturn_pure hrest
    exact hdelivers

end AlwaysDelivers

/-! A run and its rounds. -/

variable [Monad m] [LawfulMonad m] [LawfulMonadAttach m]
variable {options : Options} {config : Config} {s : Session}

theorem timed_delivers (host : Host m) {step : Unit → Except Failure α}
    (h : Delivers attempts P (step ())) :
    AlwaysDelivers attempts (fun timed => P timed.1) (timed host step) := by
  refine (AlwaysDelivers.lift host.clock).bind fun started _ => ?_
  cases hstep : step () with
  | error failure =>
    rw [hstep] at h
    exact .throw h
  | ok value =>
    rw [hstep] at h
    exact (AlwaysDelivers.lift host.clock).bind fun stopped _ => .pure h

theorem delivers_of_exists {x : Except Failure α} (h : ∃ value, x = .ok value ∧ P value) :
    Delivers attempts P x := by
  obtain ⟨value, rfl, hvalue⟩ := h
  exact hvalue

theorem round_delivers (host : Host m) (writes : Nat) (timing : Timing) {rounds : Nat}
    (h : s.Sound config rounds) :
    AlwaysDelivers (rounds + 1) (·.1.Sound config (rounds + 1)) (round host writes s timing) := by
  obtain ⟨hplace, hchosen⟩ := h.choose
  unfold round
  dsimp only
  refine (timed_delivers host (delivers_of_exists (hchosen.restore hplace))).bind ?_
  rintro ⟨restored, time⟩ hrestored
  refine (AlwaysDelivers.ofExcept (delivers_of_exists (hrestored.exercise writes))).bind ?_
  intro exercised hexercised
  refine (timed_delivers host (hexercised.fork hexercised.place_lt)).bind ?_
  rintro ⟨⟨forked, next⟩, time⟩ hnext
  cases forked with
  | true => exact .pure hnext.retire
  | false => exact .pure hnext

theorem rounds_deliver (host : Host m) (writes count : Nat) (timing : Timing) {done : Nat}
    (h : s.Sound config done) :
    AlwaysDelivers (done + count) (·.1.Sound config (done + count))
      (rounds host writes count s timing) := by
  induction count generalizing s timing done with
  | zero => exact .pure h
  | succ count ih =>
    have hround := (round_delivers host writes timing h).mono (Nat.le_add_right _ count)
    have hdone : done + (count + 1) = done + 1 + count := by omega
    rw [hdone]
    refine hround.bind ?_
    rintro ⟨next, timing⟩ hnext
    exact ih timing hnext

def Options.HasDisk (options : Options) (host : Host m) : Prop :=
  match options.image with
  | none => options.sectors ≠ 0
  | some path => ∀ file, CanReturn (host.file path) file →
      ∃ image, FileImage.ofFile file = .ok image ∧ image.sectorCount ≠ 0

theorem openDisk_delivers {host : Host m} (h : options.HasDisk host) :
    AlwaysDelivers attempts (·.sectorCount ≠ 0) (openDisk options host) := by
  unfold openDisk
  unfold Options.HasDisk at h
  cases himage : options.image with
  | none =>
    rw [himage] at h
    exact .pure h
  | some path =>
    rw [himage] at h
    refine (AlwaysDelivers.lift (host.file path)).bind fun file hfile => ?_
    obtain ⟨image, hopen, hcount⟩ := h file hfile
    rw [hopen]
    exact .pure hcount

def Options.configured (options : Options) (config : Config) : Config :=
  { config with maxForkDepth := options.maxForkDepth <|> config.maxForkDepth }

theorem configure_eq_ok {lookup : String → Option String}
    (hconfig : Config.ofLookup lookup = .ok config) (hlimit : options.maxForkDepth ≠ some 0) :
    configure options lookup
      =
    .ok { config := options.configured config, registry := boardRegistry } := by
  obtain ⟨hsize, hdepth⟩ := Config.validate_eq_ok_iff.mp (Config.ofLookup_eq_ok_iff.mp hconfig).2
  have hvalid : (options.configured config).validate = .ok () := by
    refine Config.validate_eq_ok_iff.mpr ⟨hsize, ?_⟩
    unfold Options.configured
    cases hforced : options.maxForkDepth with
    | none => exact hdepth
    | some limit =>
      rw [hforced] at hlimit
      exact hlimit
  have hnew : (Engine.new (options.configured config) : Except EngineError (Engine Part))
      = .ok { config := options.configured config } := by
    rw [Engine.new, hvalid]
  unfold configure
  rw [hconfig]
  unfold Options.configured at hnew ⊢
  dsimp only [Except.mapError, bind, Except.bind]
  rw [hnew]
  dsimp only [Engine.startUp]
  rw [startUp_registerParts]
  rfl

/--
A run of a valid configuration on a disk with sectors goes through all its rounds, and its report is
sound. It fails only if there have been so many attempts to fork that the slots have run out.
-/
theorem run_delivers {host : Host m} (rolls : Rolls)
    (hconfig : Config.ofLookup host.lookup = .ok config) (hlimit : options.maxForkDepth ≠ some 0)
    (hdisk : options.HasDisk host) :
    AlwaysDelivers options.forks
      (·.Sound options.forks (options.maxForkDepth <|> config.maxForkDepth))
      (run options host rolls) := by
  have hsize : (options.configured config).preferredSize ≤ Config.maxPreferredSize :=
    (Config.validate_eq_ok_iff.mp (Config.ofLookup_eq_ok_iff.mp hconfig).2).1
  unfold run
  rw [configure_eq_ok hconfig hlimit]
  refine (AlwaysDelivers.ofExcept (P := (· = _)) (x := .ok _) rfl).bind ?_
  rintro engine rfl
  refine (openDisk_delivers hdisk).bind fun image himage => ?_
  have hstart := Session.start_sound image rolls hsize himage
  refine (AlwaysDelivers.ofExcept (delivers_of_exists hstart)).bind fun s hs => ?_
  have hrounds := rounds_deliver host options.writesPerPath options.forks {} hs
  rw [Nat.zero_add] at hrounds
  refine hrounds.bind ?_
  rintro ⟨last, timing⟩ hlast
  have hreport := hlast.report options.seed.toNat timing.fork timing.restore
  exact .ofExcept (delivers_of_exists hreport)

def bareHost : Host Id where
  lookup _ := none
  file _ := .unopenable "No such file or directory (os error 2)"
  clock := 0

def shallow : Options where
  sectors := 4
  forks := 3
  maxForkDepth := some 1

def fewWords : Rolls where
  word position := [14, 201, 77, 3, 90, 2, 31, 8, 55, 6, 12, 19].getD position 0

theorem run_delivers_shallow :
    Config.ofLookup bareHost.lookup = .ok {} ∧ shallow.maxForkDepth ≠ some 0 ∧
      shallow.HasDisk bareHost ∧
      ∃ report, (run shallow bareHost fewWords).run = .ok report ∧ report.Sound 3 (some 1) := by
  have hconfig : Config.ofLookup bareHost.lookup = .ok {} := rfl
  have hlimit : shallow.maxForkDepth ≠ some 0 := by decide
  have hdisk : shallow.HasDisk bareHost := by
    show (4 : UInt64) ≠ 0
    decide
  have hrun := run_delivers fewWords hconfig hlimit hdisk
  refine ⟨hconfig, hlimit, hdisk, ?_⟩
  cases hresult : (run shallow bareHost fewWords).run with
  | ok report => exact ⟨report, rfl, hrun _ hresult⟩
  | error failure => exact absurd (hrun _ hresult).1 (by decide)

end Bench

end MachineFork
