import Mathlib.Data.List.TakeWhile
import PacketPipe.ConfigOptions

/-!
# The texts that the integer options accept

`parse_positive_int` passes its text to `std::stoi`, which skips white space
and a sign in front of the number and whatever follows it, and never asks
whether the whole text was read. An option therefore treats a text as it
should, unless the text is no numeral but has one of an acceptable value after
white space and a plus sign.
-/

namespace PacketPipe.IntegerOptions

open ConfigParserModel ConfigOptions

/-- The five integer options. -/
inductive IntOption
  | flowTimeout
  | maxFlows
  | statsInterval
  | srBuffer
  | metricsPort
  deriving DecidableEq

/-- The flag of an option. -/
def IntOption.flag : IntOption → String
  | .flowTimeout => "--flow-timeout"
  | .maxFlows => "--max-flows"
  | .statsInterval => "--stats-interval"
  | .srBuffer => "--sr-buffer"
  | .metricsPort => "--metrics-port"

/-- The largest value of an option. -/
def IntOption.limit : IntOption → ℕ
  | .metricsPort => 65535
  | _ => 2147483647

/-- The configuration with a number stored in the field of an option. -/
def IntOption.store (n : ℕ) (cfg : AppConfig) : IntOption → AppConfig
  | .flowTimeout => {cfg with flowTimeoutSec := Int32.ofNat n}
  | .maxFlows => {cfg with maxFlows := Int32.ofNat n}
  | .statsInterval => {cfg with statsIntervalSec := Int32.ofNat n}
  | .srBuffer => {cfg with srBufferSize := Int32.ofNat n}
  | .metricsPort => {cfg with metricsPort := UInt16.ofNat n}

/-- The whole text is a decimal numeral of the value. -/
def Numeral (text : List Char) (n : ℕ) : Prop :=
  text≠[] ∧ (∀ c∈text,c.isDigit=true) ∧ digitsValue text=n

/-- The text is a numeral of the value after white space and at most a plus
sign, and before anything that does not begin with a digit. -/
structure ReadAs (text : List Char) (n : ℕ) (spaces sign digits rest : List Char) : Prop where
  text_eq : text=spaces++(sign++(digits++rest))
  spaces : ∀ c∈spaces,isSpace c=true
  sign : sign=[] ∨ sign=['+']
  digits : Numeral digits n
  rest : ∀ c∈rest.head?,c.isDigit=false

section Readings

/-- A digit is no white space. -/
theorem isSpace_digit {c : Char} (h : c.isDigit=true) : isSpace c=false := by
  unfold isSpace
  simp only [Bool.or_eq_false_iff,decide_eq_false_iff_not]
  refine ⟨⟨⟨⟨⟨?_,?_⟩,?_⟩,?_⟩,?_⟩,?_⟩ <;> rintro rfl <;> exact absurd h (by decide)

/-- `takeWhile` stops where the digits do. -/
theorem takeWhile_digits {digits rest : List Char} (hdigits : ∀ c∈digits,c.isDigit=true)
    (hrest : ∀ c∈rest.head?,c.isDigit=false) :
    (digits++rest).takeWhile Char.isDigit=digits := by
  rw [List.takeWhile_append_of_pos hdigits]
  cases rest with
  | nil => exact List.append_nil digits
  | cons c rest =>
    have hc := hrest c rfl
    rw [List.takeWhile_cons_of_neg (by rw [hc]; exact Bool.false_ne_true),List.append_nil]

/-- The digits at the front of a text, and what follows them. -/
theorem unsignedValue_some {text : List Char} {n : ℕ} :
    unsignedValue text=some n ↔ ∃ digits rest,text=digits++rest ∧ Numeral digits n ∧
      ∀ c∈rest.head?,c.isDigit=false := by
  unfold unsignedValue
  dsimp only
  constructor
  · intro h
    split at h
    · cases h
    · next hne =>
      refine ⟨text.takeWhile Char.isDigit,text.dropWhile Char.isDigit,
        List.takeWhile_append_dropWhile.symm,⟨hne,?_,Option.some.inj h⟩,?_⟩
      · exact fun c hc => List.mem_takeWhile_imp hc
      · intro c hc
        have hstop := List.head?_dropWhile_not Char.isDigit text
        rw [Option.mem_def.mp hc] at hstop
        exact hstop
  · rintro ⟨digits,rest,rfl,⟨hne,hdigits,hvalue⟩,hrest⟩
    rw [takeWhile_digits hdigits hrest,if_neg hne,hvalue]

/-- What remains behind the white space. -/
theorem dropWhile_spaces {spaces rest : List Char} (hspaces : ∀ c∈spaces,isSpace c=true)
    (hrest : ∀ c∈rest.head?,isSpace c=false) : (spaces++rest).dropWhile isSpace=rest := by
  rw [List.dropWhile_append_of_pos hspaces]
  cases rest with
  | nil => rfl
  | cons c rest =>
    have hc := hrest c rfl
    exact List.dropWhile_cons_of_neg (by rw [hc]; exact Bool.false_ne_true)

/-- The value of an optional number, as an integer. -/
theorem map_cast (x : Option ℕ) (f : ℤ → ℤ) :
    (Option.map f (do
      let n ← x
      pure (n : ℤ)))=x.map fun n : ℕ => f n := by
  cases x <;> rfl

/-- A minus sign behind the white space. -/
theorem strtol_minus {text rest : List Char} (h : text.dropWhile isSpace= '-'::rest) :
    strtol text=(unsignedValue rest).map fun n : ℕ => -(n : ℤ) := by
  unfold strtol
  rw [h]
  exact map_cast _ _

/-- A plus sign. -/
theorem strtol_plus {text rest : List Char} (h : text.dropWhile isSpace= '+'::rest) :
    strtol text=(unsignedValue rest).map fun n : ℕ => (n : ℤ) := by
  unfold strtol
  rw [h]
  exact map_cast _ _

/-- No sign. -/
theorem strtol_plain {text : List Char} (hminus : ∀ rest,text.dropWhile isSpace≠ '-'::rest)
    (hplus : ∀ rest,text.dropWhile isSpace≠ '+'::rest) :
    strtol text=(unsignedValue (text.dropWhile isSpace)).map fun n : ℕ => (n : ℤ) := by
  unfold strtol
  split
  · next rest h => exact absurd h (hminus rest)
  · next rest h => exact absurd h (hplus rest)
  · exact map_cast _ _

/-- `strtol` gets a positive value exactly from a text that is read as its
numeral. -/
theorem strtol_some {text : List Char} {n : ℕ} (hn : 0<n) :
    strtol text=some (n : ℤ) ↔ ∃ spaces sign digits rest,ReadAs text n spaces sign digits rest := by
  constructor
  · intro h
    have htext : text=text.takeWhile isSpace++text.dropWhile isSpace :=
      List.takeWhile_append_dropWhile.symm
    have hspaces : ∀ c∈text.takeWhile isSpace,isSpace c=true :=
      fun c hc => List.mem_takeWhile_imp hc
    by_cases hminus : ∃ rest,text.dropWhile isSpace= '-'::rest
    · obtain ⟨body,hbody⟩ := hminus
      rw [strtol_minus hbody] at h
      obtain ⟨m,_,hm⟩ := Option.map_eq_some_iff.mp h
      omega
    by_cases hplus : ∃ rest,text.dropWhile isSpace= '+'::rest
    · obtain ⟨body,hbody⟩ := hplus
      rw [strtol_plus hbody] at h
      obtain ⟨m,hm,hvalue⟩ := Option.map_eq_some_iff.mp h
      have hsame : m=n := by omega
      subst hsame
      obtain ⟨digits,rest,rfl,hdigits,hrest⟩ := unsignedValue_some.mp hm
      rw [hbody] at htext
      exact ⟨_,['+'],digits,rest,htext,hspaces,Or.inr rfl,hdigits,hrest⟩
    · rw [strtol_plain (not_exists.mp hminus) (not_exists.mp hplus)] at h
      obtain ⟨m,hm,hvalue⟩ := Option.map_eq_some_iff.mp h
      have hsame : m=n := by omega
      subst hsame
      obtain ⟨digits,rest,hbody,hdigits,hrest⟩ := unsignedValue_some.mp hm
      rw [hbody] at htext
      exact ⟨_,[],digits,rest,htext,hspaces,Or.inl rfl,hdigits,hrest⟩
  · rintro ⟨spaces,sign,digits,rest,h⟩
    have hvalue : unsignedValue (digits++rest)=some n :=
      unsignedValue_some.mpr ⟨digits,rest,rfl,h.digits,h.rest⟩
    obtain ⟨hne,hall,_⟩ := h.digits
    obtain ⟨d,ds,rfl⟩ := List.exists_cons_of_ne_nil hne
    have hdigit : d.isDigit=true := hall d List.mem_cons_self
    rcases h.sign with hsign | hsign
    · have hbody : text.dropWhile isSpace=d::(ds++rest) := by
        rw [h.text_eq,hsign]
        exact dropWhile_spaces h.spaces fun c hc => by
          cases hc
          exact isSpace_digit hdigit
      have hsigned : ∀ c rest,c.isDigit=false → text.dropWhile isSpace≠c::rest := by
        intro c rest hc heq
        obtain ⟨rfl,_⟩ := List.cons.inj (hbody.symm.trans heq)
        exact absurd (hdigit.symm.trans hc) (by decide)
      rw [strtol_plain (fun rest => hsigned '-' rest rfl) (fun rest => hsigned '+' rest rfl),hbody]
      exact congrArg (Option.map _) hvalue
    · have hbody : text.dropWhile isSpace=('+'::(d::(ds++rest))) := by
        rw [h.text_eq,hsign]
        exact dropWhile_spaces h.spaces fun c hc => by
          cases hc
          decide
      rw [strtol_plus hbody]
      exact congrArg (Option.map _) hvalue

/-- `std::stoi` reads a positive number exactly from a text that is read as its
numeral, within 32 bits. -/
theorem stoi_positive {s : String} {v : Int32} :
    (stoi s=.ok v ∧ 0<v) ↔ ∃ n spaces sign digits rest,1≤n ∧ n≤2147483647 ∧ v=Int32.ofNat n ∧
      ReadAs s.toList n spaces sign digits rest := by
  constructor
  · rintro ⟨hread,hpositive⟩
    unfold stoi at hread
    split at hread
    · cases hread
    · next number hnumber =>
      split at hread
      · next hrange =>
        cases hread
        have hvalue := Int32.toInt_ofInt_of_le hrange.1 hrange.2
        have hnumberPositive : 0<number := by
          rw [←hvalue]
          exact Int32.lt_iff_toInt_lt.mp hpositive
        obtain ⟨n,rfl⟩ := Int.eq_ofNat_of_zero_le (Int.le_of_lt hnumberPositive)
        have hn : 0<n := by omega
        obtain ⟨spaces,sign,digits,rest,h⟩ := (strtol_some hn).mp hnumber
        exact ⟨n,spaces,sign,digits,rest,hn,by omega,Int32.ofInt_eq_ofNat,h⟩
      · cases hread
  · rintro ⟨n,spaces,sign,digits,rest,hlow,hhigh,rfl,h⟩
    have hnumber : strtol s.toList=some (n : ℤ) :=
      (strtol_some hlow).mpr ⟨spaces,sign,digits,rest,h⟩
    have hrange : -2^31≤(n : ℤ) ∧ (n : ℤ)<2^31 := by omega
    constructor
    · unfold stoi
      rw [hnumber]
      dsimp only
      rw [if_pos hrange,Int32.ofInt_eq_ofNat]
    · have hvalue : (Int32.ofNat n).toInt=n := Int32.toInt_ofNat_of_lt (by omega)
      rw [Int32.lt_iff_toInt_lt,hvalue]
      change (0 : ℤ)<n
      omega

end Readings

/-- The text is no numeral, yet a number in the range of the option is read
from it: there is something before or after the digits. -/
def Misread (o : IntOption) (s : String) : Prop :=
  ∃ n spaces sign digits rest,(1≤n ∧ n≤o.limit) ∧ ReadAs s.toList n spaces sign digits rest ∧
    (spaces≠[] ∨ sign≠[] ∨ rest≠[])

/-- An option takes exactly the numerals in its range, with their values. -/
structure TakesNumerals (o : IntOption) (s : String) : Prop where
  /-- The value of a numeral in range is stored. -/
  accepted : ∀ n,Numeral s.toList n → 1≤n → n≤o.limit → ∀ cfg rest,
    parseLoop cfg (o.flag::s::rest)=parseLoop (o.store n cfg) rest
  /-- For any other text `parse` throws, whatever comes before and after it. -/
  refused : (∀ n,Numeral s.toList n → ¬(1≤n ∧ n≤o.limit)) → ∀ program pairs rest,
    ∃ msg,parse (program::(flatten pairs++o.flag::s::rest))=.error msg

section Options

/-- In a numeral nothing comes before or after the digits. -/
theorem Numeral.bare {text : List Char} {n m : ℕ} {spaces sign digits rest : List Char}
    (h : Numeral text n) (hread : ReadAs text m spaces sign digits rest) :
    spaces=[] ∧ sign=[] ∧ rest=[] := by
  have hall := h.2.1
  rw [hread.text_eq] at hall
  obtain ⟨hspaces,hrest⟩ := List.forall_mem_append.mp hall
  obtain ⟨hsign,hrest⟩ := List.forall_mem_append.mp hrest
  obtain ⟨_,hrest⟩ := List.forall_mem_append.mp hrest
  have hnone : spaces=[] := by
    cases spaces with
    | nil => rfl
    | cons c _ =>
      have hspace := hread.spaces c List.mem_cons_self
      rw [isSpace_digit (hspaces c List.mem_cons_self)] at hspace
      cases hspace
  have hbare : sign=[] := by
    rcases hread.sign with hsign' | hsign'
    · exact hsign'
    · rw [hsign'] at hsign
      exact absurd (hsign '+' List.mem_cons_self) (by decide)
  have hend : rest=[] := by
    cases rest with
    | nil => rfl
    | cons c _ =>
      have hstop := hread.rest c rfl
      rw [hrest c List.mem_cons_self] at hstop
      cases hstop
  exact ⟨hnone,hbare,hend⟩

/-- A numeral is read as itself. -/
theorem Numeral.readAs {text : List Char} {n : ℕ} (h : Numeral text n) :
    ReadAs text n [] [] text [] :=
  ⟨(List.append_nil text).symm,List.forall_mem_nil _,Or.inl rfl,h,nofun⟩

/-- Every option has a flag for numbers. -/
theorem IntOption.flag_mem (o : IntOption) : o.flag∈intFlags := by
  cases o <;> decide

/-- No option has a larger range than `int`. -/
theorem IntOption.limit_le (o : IntOption) : o.limit≤2147483647 := by
  cases o <;> decide

/-- The number stored for a text that is read as a numeral. -/
theorem intValue_readAs {s : String} {n : ℕ} {spaces sign digits rest : List Char} (hlow : 1≤n)
    (hhigh : n≤2147483647) (h : ReadAs s.toList n spaces sign digits rest) :
    Positive s ∧ intValue s=Int32.ofNat n ∧ (intValue s).toInt=n := by
  have hread := stoi_positive.mpr ⟨n,spaces,sign,digits,rest,hlow,hhigh,rfl,h⟩
  have hvalue := intValue_read hread.1
  refine ⟨⟨_,hread⟩,hvalue,?_⟩
  rw [hvalue]
  exact Int32.toInt_ofNat_of_lt (by omega)

/-- An option accepts the texts from which a number in its range is read. -/
theorem accepted_iff (o : IntOption) (s : String) :
    Accepted o.flag s ↔ ∃ n spaces sign digits rest,(1≤n ∧ n≤o.limit) ∧
      ReadAs s.toList n spaces sign digits rest := by
  constructor
  · intro h
    obtain ⟨v,hv⟩ := h.positive o.flag_mem
    obtain ⟨n,spaces,sign,digits,rest,hlow,hhigh,_,hread⟩ := stoi_positive.mp hv
    refine ⟨n,spaces,sign,digits,rest,⟨hlow,?_⟩,hread⟩
    cases o with
    | metricsPort =>
      have hport := h.port rfl
      rw [(intValue_readAs hlow hhigh hread).2.2] at hport
      have hlimit : IntOption.metricsPort.limit=65535 := rfl
      omega
    | flowTimeout => exact hhigh
    | maxFlows => exact hhigh
    | statsInterval => exact hhigh
    | srBuffer => exact hhigh
  · rintro ⟨n,spaces,sign,digits,rest,⟨hlow,hhigh⟩,hread⟩
    obtain ⟨hpositive,_,hvalue⟩ := intValue_readAs hlow (hhigh.trans o.limit_le) hread
    cases o with
    | flowTimeout => exact .flowTimeout s hpositive
    | maxFlows => exact .maxFlows s hpositive
    | statsInterval => exact .statsInterval s hpositive
    | srBuffer => exact .srBuffer s hpositive
    | metricsPort =>
      have hlimit : IntOption.metricsPort.limit=65535 := rfl
      exact .metricsPort s hpositive (by omega)

/-- What an accepted text stores. -/
theorem settle_option (o : IntOption) {s : String} {n : ℕ} {spaces sign digits rest : List Char}
    (hlow : 1≤n) (hhigh : n≤o.limit) (h : ReadAs s.toList n spaces sign digits rest)
    (cfg : AppConfig) : settle cfg [(o.flag,s)]=o.store n cfg := by
  obtain ⟨_,hvalue,hint⟩ := intValue_readAs hlow (hhigh.trans o.limit_le) h
  have hport : portValue s=UInt16.ofNat n := by
    rw [portValue,hint,Int.toNat_natCast]
  cases o with
  | flowTimeout => exact congrArg (fun v => {cfg with flowTimeoutSec := v}) hvalue
  | maxFlows => exact congrArg (fun v => {cfg with maxFlows := v}) hvalue
  | statsInterval => exact congrArg (fun v => {cfg with statsIntervalSec := v}) hvalue
  | srBuffer => exact congrArg (fun v => {cfg with srBufferSize := v}) hvalue
  | metricsPort => exact congrArg (fun v => {cfg with metricsPort := v}) hport

/-- An accepted pair is consumed. -/
theorem parseLoop_accepted {flag s : String} (h : Accepted flag s) (cfg : AppConfig)
    (rest : List String) :
    parseLoop cfg (flag::s::rest)=parseLoop (settle cfg [(flag,s)]) rest := by
  have hstore : storeValue cfg flag s=some (.ok (settle cfg [(flag,s)])) :=
    storeValue_ok.mpr ⟨h,rfl⟩
  rw [parseLoop,if_neg h.not_help,hstore]

/-- A pair that is not accepted ends the loop. -/
theorem parseLoop_refused {flag s : String} (h : ¬Accepted flag s) (cfg : AppConfig)
    (rest : List String) : ∃ msg,parseLoop cfg (flag::s::rest)=.error msg := by
  rw [parseLoop]
  split
  · exact ⟨_,rfl⟩
  · split
    · next next hstore => exact absurd (storeValue_ok.mp hstore).1 h
    · exact ⟨_,rfl⟩
    · exact ⟨_,rfl⟩

/-- Behind pairs the loop goes on, unless it has ended. -/
theorem parseLoop_behind (cfg : AppConfig) (pairs : List (String×String)) (args : List String) :
    (∃ next,parseLoop cfg (flatten pairs++args)=parseLoop next args) ∨
      ∃ msg,parseLoop cfg (flatten pairs++args)=.error msg := by
  induction pairs generalizing cfg with
  | nil => exact Or.inl ⟨cfg,rfl⟩
  | cons p rest ih =>
    rw [flatten_cons,List.cons_append,List.cons_append]
    by_cases haccepted : Accepted p.1 p.2
    · rw [parseLoop_accepted haccepted]
      exact ih _
    · exact Or.inr (parseLoop_refused haccepted cfg _)

/-- An error of the loop is an error of `parse`. -/
theorem parse_error {argv : List String} {msg : String}
    (h : parseLoop {} argv.tail=.error msg) : parse argv=.error msg := by
  unfold parse
  rw [h]
  rfl

/-- A text that a number in range is read from is taken behind a source. -/
theorem parse_readAs (o : IntOption) {s : String} {n : ℕ} {spaces sign digits rest : List Char}
    (hlow : 1≤n) (hhigh : n≤o.limit) (h : ReadAs s.toList n spaces sign digits rest) :
    parse ("packetpipe"::flatten [("--pcap","a.pcap"),(o.flag,s)])=
      .ok (o.store n (settle {} [("--pcap","a.pcap")])) := by
  have haccepted : Accepted o.flag s :=
    (accepted_iff o s).mpr ⟨n,spaces,sign,digits,rest,⟨hlow,hhigh⟩,h⟩
  have hpairs : ∀ p∈[("--pcap","a.pcap"),(o.flag,s)],Accepted p.1 p.2 :=
    List.forall_mem_cons.mpr ⟨.pcap "a.pcap",List.forall_mem_singleton.mpr haccepted⟩
  have hfile : "a.pcap"≠"" := by decide
  rw [parse_flatten,settle_cons,settle_option o hlow hhigh h]
  refine ⟨⟨hpairs,rfl⟩,Or.inl ?_⟩
  cases o <;> exact ⟨hfile,rfl⟩

/-- A text that is neither misread nor a numeral in range is not accepted. -/
theorem not_accepted {o : IntOption} {s : String} (hmisread : ¬Misread o s)
    (hno : ∀ n,Numeral s.toList n → ¬(1≤n ∧ n≤o.limit)) : ¬Accepted o.flag s := by
  intro haccepted
  obtain ⟨n,spaces,sign,digits,tail,hrange,hread⟩ := (accepted_iff o s).mp haccepted
  by_cases hextra : spaces≠[] ∨ sign≠[] ∨ tail≠[]
  · exact hmisread ⟨n,spaces,sign,digits,tail,hrange,hread,hextra⟩
  · simp only [not_or,not_not] at hextra
    obtain ⟨rfl,rfl,rfl⟩ := hextra
    have htext : s.toList=digits := by
      rw [hread.text_eq,List.append_nil]
      rfl
    have hnumeral := hread.digits
    rw [←htext] at hnumeral
    exact hno n hnumeral hrange

/-- A pair that is not accepted makes `parse` throw, wherever it stands. -/
theorem parse_refused {flag s : String} (h : ¬Accepted flag s) (program : String)
    (pairs : List (String×String)) (rest : List String) :
    ∃ msg,parse (program::(flatten pairs++flag::s::rest))=.error msg := by
  rcases parseLoop_behind {} pairs (flag::s::rest) with ⟨next,hnext⟩ | ⟨msg,hmsg⟩
  · obtain ⟨msg,hmsg⟩ := parseLoop_refused h next rest
    exact ⟨msg,parse_error (hnext.trans hmsg)⟩
  · exact ⟨msg,parse_error hmsg⟩

/-- For each of the five options and every text, the option takes the numerals
in its range with their values and makes `parse` throw for every other text
exactly when the text is not one that is misread. -/
theorem numerals_iff (o : IntOption) (s : String) : TakesNumerals o s ↔ ¬Misread o s := by
  constructor
  · rintro htakes ⟨n,spaces,sign,digits,rest,⟨hlow,hhigh⟩,hread,hextra⟩
    have hno : ∀ m,Numeral s.toList m → ¬(1≤ m ∧ m≤o.limit) := by
      intro m hm _
      obtain ⟨hspaces,hsign,hrest⟩ := hm.bare hread
      rcases hextra with h | h | h
      · exact h hspaces
      · exact h hsign
      · exact h hrest
    obtain ⟨msg,hmsg⟩ := htakes.refused hno "packetpipe" [("--pcap","a.pcap")] []
    have hok := parse_readAs o hlow hhigh hread
    have hboth : Except.ok (ε := String) (o.store n (settle {} [("--pcap","a.pcap")]))=
        .error msg := hok.symm.trans hmsg
    cases hboth
  · intro hmisread
    constructor
    · intro n hn hlow hhigh cfg rest
      have haccepted : Accepted o.flag s :=
        (accepted_iff o s).mpr ⟨n,[],[],s.toList,[],⟨hlow,hhigh⟩,hn.readAs⟩
      rw [parseLoop_accepted haccepted,settle_option o hlow hhigh hn.readAs]
    · intro hno program pairs rest
      exact parse_refused (not_accepted hmisread hno) program pairs rest

end Options

/-- `5m` is no numeral, but `parse` accepts it as five seconds. -/
theorem minutes_read_as_seconds :
    ¬TakesNumerals .flowTimeout "5m" ∧
      (∀ n,¬Numeral "5m".toList n) ∧
        parse ["packetpipe","--pcap","a.pcap","--flow-timeout","5m"]=
          .ok {pcapFile := "a.pcap",flowTimeoutSec := 5} := by
  have hno : ∀ n,¬Numeral "5m".toList n := fun n h => absurd (h.2.1 'm' (by decide)) (by decide)
  have hok : parse ["packetpipe","--pcap","a.pcap","--flow-timeout","5m"]=
      .ok {pcapFile := "a.pcap",flowTimeoutSec := 5} := by decide
  refine ⟨fun h => ?_,hno,hok⟩
  obtain ⟨msg,hmsg⟩ := h.refused (fun n hn _ => hno n hn) "packetpipe" [("--pcap","a.pcap")] []
  have hboth : Except.error (α := AppConfig) msg=
      .ok {pcapFile := "a.pcap",flowTimeoutSec := 5} := hmsg.symm.trans hok
  cases hboth

end PacketPipe.IntegerOptions
