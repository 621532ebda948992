import PacketPipe.ConfigParserModel
import PacketPipe.LastValues

/-!
# What the command line means

The loop of `parse` consumes flags with their values from left to right. Its
result has a meaning of its own: every pair is acceptable by itself, and each
field is the converted last value of its flag or the default. So neither the
order of different flags nor earlier values of a flag matter.
-/

namespace PacketPipe.ConfigOptions

open ConfigParserModel LastValues

/-- A sequence of flags with their values. -/
def flatten (pairs : List (String×String)) : List String := pairs.flatMap fun p => [p.1,p.2]

@[simp] theorem flatten_nil : flatten []=[] := rfl

@[simp] theorem flatten_cons (p : String×String) (pairs : List (String×String)) :
    flatten (p::pairs)=p.1::p.2::flatten pairs := rfl

/-- The number that `std::stoi` reads; zero stands for an exception. -/
def intValue (s : String) : Int32 := (stoi s).toOption.getD 0

/-- The port that is stored for a number. -/
def portValue (s : String) : UInt16 := UInt16.ofNat (intValue s).toInt.toNat

/-- The configuration in which each field has the converted last value of its
flag, or its value in `cfg` when the flag does not occur. -/
def settle (cfg : AppConfig) (pairs : List (String×String)) : AppConfig where
  pcapFile := (lastValue "--pcap" pairs).getD cfg.pcapFile
  iface := (lastValue "--iface" pairs).getD cfg.iface
  bpfFilter := (lastValue "--filter" pairs).getD cfg.bpfFilter
  flowTimeoutSec := ((lastValue "--flow-timeout" pairs).map intValue).getD cfg.flowTimeoutSec
  maxFlows := ((lastValue "--max-flows" pairs).map intValue).getD cfg.maxFlows
  statsIntervalSec :=
    ((lastValue "--stats-interval" pairs).map intValue).getD cfg.statsIntervalSec
  kafkaBrokers := (lastValue "--kafka-brokers" pairs).getD cfg.kafkaBrokers
  kafkaTopic := (lastValue "--kafka-topic" pairs).getD cfg.kafkaTopic
  kafkaConfFile := (lastValue "--kafka-conf" pairs).getD cfg.kafkaConfFile
  schemaRegistryUrl := (lastValue "--schema-registry-url" pairs).getD cfg.schemaRegistryUrl
  srBufferSize := ((lastValue "--sr-buffer" pairs).map intValue).getD cfg.srBufferSize
  metricsPort := ((lastValue "--metrics-port" pairs).map portValue).getD cfg.metricsPort
  logLevel := (lastValue "--log-level" pairs).getD cfg.logLevel

section Conversions

/-- A computation whose result is put to use succeeds when it does. -/
theorem use_ok {α β : Type} {x : Except String α} {f : α → β} {b : β} :
    (do return f (← x))=Except.ok (ε := String) b ↔ ∃ a,x=.ok a ∧ f a=b := by
  cases x with
  | error e =>
    constructor
    · intro h
      cases h
    · rintro ⟨_,h,_⟩
      cases h
  | ok a =>
    constructor
    · intro h
      exact ⟨a,rfl,Except.ok.inj h⟩
    · rintro ⟨_,h,rfl⟩
      cases h
      rfl

/-- A number that was read passes `parse_positive_int` when it is positive. The
error for another one is caught again by the function itself. -/
theorem parsePositiveInt_read {s : String} {v : Int32} (hread : stoi s=.ok v) (flag : String) :
    parsePositiveInt s flag=
      if v≤0 then die (flag++" requires an integer value, got: "++s) else .ok v := by
  unfold parsePositiveInt
  rw [hread]
  by_cases hv : v≤0
  · rw [if_pos hv]
    simp only [bind,Except.bind,hv,if_true]
    rfl
  · rw [if_neg hv]
    simp only [bind,Except.bind,hv,if_false]
    rfl

/-- Text without a number does not pass. -/
theorem parsePositiveInt_unread {s e : String} (hread : stoi s=.error e) (flag : String) :
    parsePositiveInt s flag=die (flag++" requires an integer value, got: "++s) := by
  unfold parsePositiveInt
  rw [hread]
  rfl

/-- `parse_positive_int` accepts the positive numbers that `std::stoi` reads. -/
theorem parsePositiveInt_ok {s flag : String} {v : Int32} :
    parsePositiveInt s flag=.ok v ↔ stoi s=.ok v ∧ 0<v := by
  cases hread : stoi s with
  | error e =>
    rw [parsePositiveInt_unread hread]
    constructor
    · intro h
      cases h
    · rintro ⟨h,_⟩
      cases h
  | ok n =>
    rw [parsePositiveInt_read hread]
    by_cases hpositive : n≤0
    · rw [if_pos hpositive]
      constructor
      · intro h
        cases h
      · rintro ⟨h,hv⟩
        cases h
        exact absurd hv (Int32.not_lt.mpr hpositive)
    · rw [if_neg hpositive]
      constructor
      · intro h
        cases h
        exact ⟨rfl,Int32.not_le.mp hpositive⟩
      · rintro ⟨h,_⟩
        cases h
        rfl

/-- The number stored for a value that was accepted. -/
theorem intValue_read {s : String} {v : Int32} (h : stoi s=.ok v) : intValue s=v := by
  rw [intValue,h]
  rfl

end Conversions

/-- Values that the integer options accept. -/
def Positive (value : String) : Prop := ∃ v,stoi value=.ok v ∧ 0<v

/-- Pairs that the loop accepts. -/
inductive Accepted : String → String → Prop
  | pcap (value : String) : Accepted "--pcap" value
  | iface (value : String) : Accepted "--iface" value
  | filter (value : String) : Accepted "--filter" value
  | flowTimeout (value : String) (h : Positive value) : Accepted "--flow-timeout" value
  | maxFlows (value : String) (h : Positive value) : Accepted "--max-flows" value
  | statsInterval (value : String) (h : Positive value) : Accepted "--stats-interval" value
  | kafkaBrokers (value : String) : Accepted "--kafka-brokers" value
  | kafkaTopic (value : String) : Accepted "--kafka-topic" value
  | kafkaConf (value : String) : Accepted "--kafka-conf" value
  | schemaRegistryUrl (value : String) : Accepted "--schema-registry-url" value
  | srBuffer (value : String) (h : Positive value) : Accepted "--sr-buffer" value
  | metricsPort (value : String) (h : Positive value) (hport : (intValue value).toInt≤65535) :
    Accepted "--metrics-port" value
  | logLevel (value : String) (h : value∈kLevels) : Accepted "--log-level" value

/-- The usage flags store nothing. -/
theorem Accepted.not_help {arg value : String} (h : Accepted arg value) :
    ¬(arg="--help" ∨ arg="-h") := by
  cases h <;> decide

/-- The flags whose values are numbers. -/
def intFlags : List String :=
  ["--flow-timeout","--max-flows","--stats-interval","--sr-buffer","--metrics-port"]

/-- An accepted number is positive. -/
theorem Accepted.positive {arg value : String} (h : Accepted arg value) (hflag : arg∈intFlags) :
    Positive value := by
  cases h <;> first | assumption | exact absurd hflag (by decide)

/-- An accepted port is at most 65535. -/
theorem Accepted.port {arg value : String} (h : Accepted arg value)
    (hflag : arg="--metrics-port") : (intValue value).toInt≤65535 := by
  cases h <;> first | assumption | exact absurd hflag (by decide)

/-- An accepted level is one of the four. -/
theorem Accepted.level {arg value : String} (h : Accepted arg value)
    (hflag : arg="--log-level") : value∈kLevels := by
  cases h <;> first | assumption | exact absurd hflag (by decide)

section Pairs

/-- An integer option stores the number of a positive value. -/
theorem store_int {value flag : String} {f : Int32 → AppConfig} {cfg : AppConfig} :
    (do return f (← parsePositiveInt value flag))=Except.ok (ε := String) cfg ↔
      Positive value ∧ f (intValue value)=cfg := by
  rw [use_ok]
  constructor
  · rintro ⟨v,hv,hcfg⟩
    obtain ⟨hread,hpositive⟩ := parsePositiveInt_ok.mp hv
    rw [intValue_read hread]
    exact ⟨⟨v,hread,hpositive⟩,hcfg⟩
  · rintro ⟨⟨v,hread,hpositive⟩,hcfg⟩
    rw [intValue_read hread] at hcfg
    exact ⟨v,parsePositiveInt_ok.mpr ⟨hread,hpositive⟩,hcfg⟩

/-- The port option also compares the number with the largest port. -/
theorem store_port {value flag : String} {cfg cfg' : AppConfig} :
    (do
      let p ← parsePositiveInt value flag
      if p>65535 then die "--metrics-port must be in range 1-65535"
      return {cfg with metricsPort := UInt16.ofNat p.toInt.toNat})=Except.ok (ε := String) cfg' ↔
      (Positive value ∧ (intValue value).toInt≤65535) ∧
        {cfg with metricsPort := portValue value}=cfg' := by
  have hlimit (p : Int32) : p>65535 ↔ ¬p.toInt≤65535 := by
    have h65535 : (65535 : Int32).toInt=65535 := rfl
    rw [gt_iff_lt,Int32.lt_iff_toInt_lt,h65535]
    omega
  cases hread : stoi value with
  | error e =>
    rw [parsePositiveInt_unread hread]
    constructor
    · intro h
      cases h
    · rintro ⟨⟨⟨v,hv,_⟩,_⟩,_⟩
      rw [hread] at hv
      cases hv
  | ok p =>
    have hvalue := intValue_read hread
    rw [parsePositiveInt_read hread,portValue,hvalue]
    by_cases hpositive : p≤0
    · rw [if_pos hpositive]
      constructor
      · intro h
        cases h
      · rintro ⟨⟨⟨v,hv,hv'⟩,_⟩,_⟩
        rw [hread] at hv
        cases hv
        exact absurd hv' (Int32.not_lt.mpr hpositive)
    · rw [if_neg hpositive]
      have haccepted : Positive value := ⟨p,hread,Int32.not_le.mp hpositive⟩
      by_cases hport : p.toInt≤65535
      · have hsmall : ¬p>65535 := fun h => (hlimit p).mp h hport
        simp only [bind,Except.bind,hsmall,if_false]
        constructor
        · intro h
          exact ⟨⟨haccepted,hport⟩,Except.ok.inj h⟩
        · rintro ⟨_,h⟩
          exact congrArg Except.ok h
      · have hlarge : p>65535 := (hlimit p).mpr hport
        simp only [bind,Except.bind,hlarge,if_true]
        constructor
        · intro h
          cases h
        · rintro ⟨⟨_,h⟩,_⟩
          exact absurd h hport

/-- The branch of a flag is taken, or a later one. -/
theorem flag_cases {arg flag : String} {own others result : Option (Except String AppConfig)}
    {goal : Prop} (h : (if arg=flag then own else others)=result)
    (hown : arg=flag → own=result → goal) (hothers : others=result → goal) : goal := by
  by_cases harg : arg=flag
  · rw [if_pos harg] at h
    exact hown harg h
  · rw [if_neg harg] at h
    exact hothers h

/-- A branch of the loop accepts what it should, and stores what `settle` says. -/
theorem storeValue_ok {cfg cfg' : AppConfig} {arg value : String} :
    storeValue cfg arg value=some (.ok cfg') ↔
      Accepted arg value ∧ settle cfg [(arg,value)]=cfg' := by
  constructor
  · intro h
    unfold storeValue at h
    refine flag_cases h ?_ fun h => ?_
    · rintro rfl h
      cases h
      exact ⟨.pcap value,rfl⟩
    refine flag_cases h ?_ fun h => ?_
    · rintro rfl h
      cases h
      exact ⟨.iface value,rfl⟩
    refine flag_cases h ?_ fun h => ?_
    · rintro rfl h
      cases h
      exact ⟨.filter value,rfl⟩
    refine flag_cases h ?_ fun h => ?_
    · rintro rfl h
      obtain ⟨hvalue,rfl⟩ := store_int.mp (Option.some.inj h)
      exact ⟨.flowTimeout value hvalue,rfl⟩
    refine flag_cases h ?_ fun h => ?_
    · rintro rfl h
      obtain ⟨hvalue,rfl⟩ := store_int.mp (Option.some.inj h)
      exact ⟨.maxFlows value hvalue,rfl⟩
    refine flag_cases h ?_ fun h => ?_
    · rintro rfl h
      obtain ⟨hvalue,rfl⟩ := store_int.mp (Option.some.inj h)
      exact ⟨.statsInterval value hvalue,rfl⟩
    refine flag_cases h ?_ fun h => ?_
    · rintro rfl h
      cases h
      exact ⟨.kafkaBrokers value,rfl⟩
    refine flag_cases h ?_ fun h => ?_
    · rintro rfl h
      cases h
      exact ⟨.kafkaTopic value,rfl⟩
    refine flag_cases h ?_ fun h => ?_
    · rintro rfl h
      cases h
      exact ⟨.kafkaConf value,rfl⟩
    refine flag_cases h ?_ fun h => ?_
    · rintro rfl h
      cases h
      exact ⟨.schemaRegistryUrl value,rfl⟩
    refine flag_cases h ?_ fun h => ?_
    · rintro rfl h
      obtain ⟨hvalue,rfl⟩ := store_int.mp (Option.some.inj h)
      exact ⟨.srBuffer value hvalue,rfl⟩
    refine flag_cases h ?_ fun h => ?_
    · rintro rfl h
      obtain ⟨⟨hvalue,hport⟩,rfl⟩ := store_port.mp (Option.some.inj h)
      exact ⟨.metricsPort value hvalue hport,rfl⟩
    refine flag_cases h ?_ fun h => ?_
    · rintro rfl h
      by_cases hlevel : value∈kLevels
      · rw [if_pos hlevel] at h
        cases h
        exact ⟨.logLevel value hlevel,rfl⟩
      · rw [if_neg hlevel] at h
        cases h
    cases h
  · rintro ⟨haccepted,rfl⟩
    cases haccepted with
    | pcap => rfl
    | iface => rfl
    | filter => rfl
    | flowTimeout _ h => exact congrArg some (store_int.mpr ⟨h,rfl⟩)
    | maxFlows _ h => exact congrArg some (store_int.mpr ⟨h,rfl⟩)
    | statsInterval _ h => exact congrArg some (store_int.mpr ⟨h,rfl⟩)
    | kafkaBrokers => rfl
    | kafkaTopic => rfl
    | kafkaConf => rfl
    | schemaRegistryUrl => rfl
    | srBuffer _ h => exact congrArg some (store_int.mpr ⟨h,rfl⟩)
    | metricsPort _ h hport => exact congrArg some (store_port.mpr ⟨⟨h,hport⟩,rfl⟩)
    | logLevel _ h => exact congrArg some (if_pos h)

/-- A later value overrides an earlier one, in whatever form it is stored. -/
theorem settle_field {α : Type} (f : String → α) (later earlier : Option String) (old : α) :
    ((later.or earlier).map f).getD old=(later.map f).getD ((earlier.map f).getD old) := by
  cases later <;> rfl

/-- The same for texts stored as they are. -/
theorem settle_text (later earlier : Option String) (old : String) :
    (later.or earlier).getD old=later.getD (earlier.getD old) := by
  cases later <;> rfl

/-- The first pair is settled before the others. -/
theorem settle_cons (cfg : AppConfig) (p : String×String) (pairs : List (String×String)) :
    settle cfg (p::pairs)=settle (settle cfg [p]) pairs := by
  unfold settle
  simp only [lastValue_cons,lastValue_nil,Option.none_or,settle_field,settle_text]

/-- The loop accepts a sequence of pairs when it accepts each of them, and
settles all. -/
theorem parseLoop_flatten {cfg cfg' : AppConfig} {pairs : List (String×String)} :
    parseLoop cfg (flatten pairs)=.ok cfg' ↔
      (∀ p∈pairs,Accepted p.1 p.2) ∧ settle cfg pairs=cfg' := by
  induction pairs generalizing cfg with
  | nil =>
    constructor
    · intro h
      cases h
      exact ⟨List.forall_mem_nil _,rfl⟩
    · rintro ⟨_,h⟩
      exact congrArg Except.ok h
  | cons p rest ih =>
    obtain ⟨arg,value⟩ := p
    rw [flatten_cons,parseLoop,settle_cons,List.forall_mem_cons]
    by_cases hhelp : arg="--help" ∨ arg="-h"
    · rw [if_pos hhelp]
      constructor
      · intro h
        cases h
      · rintro ⟨⟨haccepted,_⟩,_⟩
        exact absurd hhelp haccepted.not_help
    · rw [if_neg hhelp]
      have hstored (next : AppConfig) : storeValue cfg arg value=some (.ok next) ↔
          Accepted arg value ∧ settle cfg [(arg,value)]=next := storeValue_ok
      cases hstore : storeValue cfg arg value with
      | none =>
        rw [hstore] at hstored
        constructor
        · intro h
          cases h
        · rintro ⟨⟨haccepted,_⟩,_⟩
          cases (hstored _).mpr ⟨haccepted,rfl⟩
      | some result =>
        rw [hstore] at hstored
        cases result with
        | error e =>
          constructor
          · intro h
            cases h
          · rintro ⟨⟨haccepted,_⟩,_⟩
            cases (hstored _).mpr ⟨haccepted,rfl⟩
        | ok next =>
          obtain ⟨haccepted,rfl⟩ := (hstored next).mp rfl
          dsimp only
          rw [ih]
          constructor
          · rintro ⟨hrest,hcfg⟩
            exact ⟨⟨haccepted,hrest⟩,hcfg⟩
          · rintro ⟨⟨_,hrest⟩,hcfg⟩
            exact ⟨hrest,hcfg⟩

/-- What the loop accepts is a sequence of pairs. -/
theorem parseLoop_pairs {cfg cfg' : AppConfig} {args : List String}
    (h : parseLoop cfg args=.ok cfg') : ∃ pairs,args=flatten pairs := by
  fun_induction parseLoop cfg args with
  | case1 cfg => exact ⟨[],rfl⟩
  | case2 => cases h
  | case3 => cases h
  | case4 => cases h
  | case5 => cases h
  | case6 cfg arg value rest _ next _ ih =>
    obtain ⟨pairs,rfl⟩ := ih h
    exact ⟨(arg,value)::pairs,rfl⟩
  | case7 => cases h
  | case8 => cases h

end Pairs

/-- What the rest of the program relies on. -/
structure WellFormed (cfg : AppConfig) : Prop where
  /-- Exactly one source. -/
  source : (cfg.pcapFile≠"" ∧ cfg.iface="") ∨ (cfg.pcapFile="" ∧ cfg.iface≠"")
  flowTimeoutSec : 1≤ cfg.flowTimeoutSec.toInt ∧ cfg.flowTimeoutSec.toInt≤2^31-1
  maxFlows : 1≤ cfg.maxFlows.toInt ∧ cfg.maxFlows.toInt≤2^31-1
  statsIntervalSec : 1≤ cfg.statsIntervalSec.toInt ∧ cfg.statsIntervalSec.toInt≤2^31-1
  srBufferSize : 1≤ cfg.srBufferSize.toInt ∧ cfg.srBufferSize.toInt≤2^31-1
  metricsPort : 1≤ cfg.metricsPort.toNat ∧ cfg.metricsPort.toNat≤65535
  logLevel : cfg.logLevel∈kLevels

section Results

variable {pairs : List (String×String)}

/-- An integer field is positive when its default is. -/
theorem settled_positive (hpairs : ∀ p∈pairs,Accepted p.1 p.2) {flag : String}
    (hflag : flag∈intFlags) {old : Int32} (hold : 1≤old.toInt) :
    1≤(((lastValue flag pairs).map intValue).getD old).toInt ∧
      (((lastValue flag pairs).map intValue).getD old).toInt≤2^31-1 := by
  have hlimit := (((lastValue flag pairs).map intValue).getD old).toInt_lt
  constructor
  · cases hlast : lastValue flag pairs with
    | none => exact hold
    | some value =>
      obtain ⟨v,hread,hpositive⟩ := (hpairs _ (lastValue_mem hlast)).positive hflag
      have hv : 0<v.toInt := Int32.lt_iff_toInt_lt.mp hpositive
      rw [Option.map_some,Option.getD_some,intValue_read hread]
      omega
  · omega

/-- The port is a port. -/
theorem settled_port (hpairs : ∀ p∈pairs,Accepted p.1 p.2) :
    1≤(((lastValue "--metrics-port" pairs).map portValue).getD 9090).toNat ∧
      (((lastValue "--metrics-port" pairs).map portValue).getD 9090).toNat≤65535 := by
  cases hlast : lastValue "--metrics-port" pairs with
  | none => decide
  | some value =>
    have haccepted : Accepted "--metrics-port" value := hpairs _ (lastValue_mem hlast)
    obtain ⟨v,hread,hpositive⟩ := haccepted.positive (by decide)
    have hport := haccepted.port rfl
    have hv : 0<v.toInt := Int32.lt_iff_toInt_lt.mp hpositive
    rw [intValue_read hread] at hport
    rw [Option.map_some,Option.getD_some,portValue,intValue_read hread,
      UInt16.toNat_ofNat_of_lt' (by rw [UInt16.size]; omega)]
    omega

/-- The level is one of the four. -/
theorem settled_level (hpairs : ∀ p∈pairs,Accepted p.1 p.2) :
    (lastValue "--log-level" pairs).getD "info"∈kLevels := by
  cases hlast : lastValue "--log-level" pairs with
  | none => decide
  | some value => exact (hpairs _ (lastValue_mem hlast)).level rfl

/-- After the loop `parse` only asks for exactly one source. -/
theorem parse_ok {argv : List String} {cfg : AppConfig} :
    parse argv=.ok cfg ↔ parseLoop {} argv.tail=.ok cfg ∧
      ((cfg.pcapFile≠"" ∧ cfg.iface="") ∨ (cfg.pcapFile="" ∧ cfg.iface≠"")) := by
  unfold parse
  cases parseLoop {} argv.tail with
  | error e =>
    constructor
    · intro h
      cases h
    · rintro ⟨h,_⟩
      cases h
  | ok found =>
    by_cases hpcap : found.pcapFile="" <;> by_cases hiface : found.iface=""
    · simp only [bind,Except.bind,hpcap,hiface,and_self,if_true,die,reduceCtorEq,Except.ok.injEq,
        false_iff,not_and]
      rintro rfl
      simp only [hpcap,hiface,ne_eq,not_true_eq_false,and_false,false_and,or_self,not_false_eq_true]
    · simp only [bind,Except.bind,pure,Except.pure,hpcap,hiface,and_false,if_false,ne_eq,
        not_true_eq_false,false_and,Except.ok.injEq]
      constructor
      · rintro rfl
        exact ⟨rfl,Or.inr ⟨hpcap,hiface⟩⟩
      · exact fun h => h.1
    · simp only [bind,Except.bind,pure,Except.pure,hpcap,hiface,false_and,if_false,ne_eq,
        not_true_eq_false,and_false,Except.ok.injEq]
      constructor
      · rintro rfl
        exact ⟨rfl,Or.inl ⟨hpcap,hiface⟩⟩
      · exact fun h => h.1
    · simp only [bind,Except.bind,pure,Except.pure,hpcap,hiface,if_false,ne_eq,
        not_false_eq_true,and_self,if_true,die,reduceCtorEq,Except.ok.injEq,false_iff,not_and]
      rintro rfl
      simp only [hpcap,hiface,and_false,false_and,or_self,not_false_eq_true]

/-- A configuration that `parse` returns is settled and well formed. -/
theorem parse_settled {argv : List String} {cfg : AppConfig} (h : parse argv=.ok cfg) :
    WellFormed cfg ∧ ∃ pairs,argv.tail=flatten pairs ∧ cfg=settle {} pairs := by
  obtain ⟨hloop,hsource⟩ := parse_ok.mp h
  obtain ⟨pairs,hpairs⟩ := parseLoop_pairs hloop
  rw [hpairs] at hloop
  obtain ⟨haccepted,rfl⟩ := parseLoop_flatten.mp hloop
  refine ⟨⟨hsource,?_,?_,?_,?_,settled_port haccepted,settled_level haccepted⟩,pairs,hpairs,rfl⟩
  · exact settled_positive haccepted (by decide) (by decide)
  · exact settled_positive haccepted (by decide) (by decide)
  · exact settled_positive haccepted (by decide) (by decide)
  · exact settled_positive haccepted (by decide) (by decide)

/-- Pairs with the same last values settle the same configuration. -/
theorem settle_samePairs {others : List (String×String)} (h : SamePairs pairs others)
    (cfg : AppConfig) : settle cfg pairs=settle cfg others := by
  unfold settle
  simp only [h.lastValue]

/-- What `parse` returns for a sequence of pairs, if anything. -/
theorem parse_flatten {program : String} {cfg : AppConfig} :
    parse (program::flatten pairs)=.ok cfg ↔
      ((∀ p∈pairs,Accepted p.1 p.2) ∧ settle {} pairs=cfg) ∧
        ((cfg.pcapFile≠"" ∧ cfg.iface="") ∨ (cfg.pcapFile="" ∧ cfg.iface≠"")) := by
  rw [parse_ok,List.tail_cons,parseLoop_flatten]

end Results

/-- The outcome of a call as the caller sees it without the text of the error. -/
theorem toOption_some {α : Type} {x : Except String α} {a : α} : x.toOption=some a ↔ x=.ok a := by
  cases x with
  | error e =>
    constructor
    · intro h
      cases h
    · intro h
      cases h
  | ok b =>
    constructor
    · intro h
      exact congrArg Except.ok (Option.some.inj h)
    · intro h
      exact congrArg some (Except.ok.inj h)

/-- For every `argv`, `parse` throws or returns a well-formed configuration in
which each field is the converted last value of its flag or the default; and
where the arguments are pairs, changing the order of pairs with different
flags changes neither whether it throws nor what it returns. -/
theorem parse_meaning :
    (∀ argv cfg,parse argv=.ok cfg →
        WellFormed cfg ∧ ∃ pairs,argv.tail=flatten pairs ∧ cfg=settle {} pairs) ∧
      ∀ program pairs others,SamePairs pairs others →
        (parse (program::flatten pairs)).toOption=(parse (program::flatten others)).toOption := by
  constructor
  · intro argv cfg h
    exact parse_settled h
  · intro program pairs others h
    refine Option.ext fun cfg => ?_
    rw [toOption_some,toOption_some,parse_flatten,parse_flatten,settle_samePairs h]
    have haccepted : (∀ p∈pairs,Accepted p.1 p.2) ↔ ∀ p∈others,Accepted p.1 p.2 :=
      forall_congr' fun p => by rw [h.mem_iff]
    rw [haccepted]

/-- Two orders of the same options, one of them given twice. -/
theorem parse_meaning_twice :
    (∃ pairs,flatten [("--pcap","a.pcap"),("--max-flows","7"),("--max-flows","9")]=flatten pairs ∧
        ({pcapFile := "a.pcap",maxFlows := 9} : AppConfig)=settle {} pairs) ∧
      (parse ("packetpipe"::flatten
          [("--pcap","a.pcap"),("--max-flows","7"),("--max-flows","9")])).toOption=
        (parse ("packetpipe"::flatten
          [("--max-flows","7"),("--pcap","a.pcap"),("--max-flows","9")])).toOption :=
  ⟨(parse_meaning.1 ("packetpipe"::flatten
      [("--pcap","a.pcap"),("--max-flows","7"),("--max-flows","9")]) _ (by decide)).2,
    parse_meaning.2 _ _ _ (samePairs_swap (by decide) _)⟩

end PacketPipe.ConfigOptions
