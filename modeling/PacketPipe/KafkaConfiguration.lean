import PacketPipe.ConfigParserModel
import PacketPipe.KeyValueLines
import PacketPipe.LastValues

/-!
# The configuration of the Kafka producer

The constructor of `KafkaProducer` with its three layers of librdkafka
settings: defaults, the lines of the file of `--kafka-conf`, and the broker
list. librdkafka and the file system are parameters. With any file the
constructor does what it does with the pairs that the file assigns, and the
settings of the producer are those of the last layer that has them.
-/

namespace PacketPipe.KafkaConfiguration

open ConfigParserModel KeyValueLines LastValues

universe u v

variable {κ π : Type u}

/-- What the constructor uses of librdkafka; an error is the `errstr`. -/
structure RdKafka (κ π : Type u) where
  /-- `RdKafka::Conf::create(CONF_GLOBAL)`. -/
  create : κ
  /-- `RdKafka::Conf::set` with a text. -/
  set : κ → String → String → Except String κ
  /-- `RdKafka::Conf::set` with the delivery callback. -/
  setDrCb : κ → Except String κ
  /-- `RdKafka::Producer::create`. -/
  createProducer : κ → Except String π

/-- A constructed `KafkaProducer`. -/
structure KafkaProducer (π : Type u) where
  /-- `producer_`. -/
  producer : π
  /-- `topic_name_`. -/
  topicName : String

/-- The texts that can be read from files; `none` for one that cannot be opened. -/
abbrev Files := String → Option (List Char)

/-- `KafkaInitError` with the text in front of an `errstr`. -/
def kafkaInitError {α : Type u} (what : String) (result : Except String α) : Except String α :=
  match result with
  | .ok a => .ok a
  | .error errstr => .error (what++errstr)

section Constructor

variable (rd : RdKafka κ π)

/-- The lambda `set`. -/
def set (conf : κ) (key val : String) : Except String κ :=
  kafkaInitError ("rdkafka conf set "++key++": ") (rd.set conf key val)

/-- The loop over the lines of the file. -/
def setLines (conf : κ) : List (List Char) → Except String κ
  | [] => .ok conf
  | line::lines =>
    if line=[] ∨ line.head?=some '#' then setLines conf lines
    else match line.idxOf? '=' with
      | none => setLines conf lines
      | some eq => do
        let conf ← set rd conf (String.ofList (line.take eq)) (String.ofList (line.drop (eq+1)))
        setLines conf lines

/-- `KafkaProducer::KafkaProducer`. -/
def kafkaProducer (files : Files) (cfg : AppConfig) : Except String (KafkaProducer π) := do
  let conf := rd.create
  let conf ← set rd conf "compression.codec" "snappy"
  let conf ← set rd conf "batch.num.messages" "1000"
  let conf ← set rd conf "linger.ms" "5"
  let conf ← set rd conf "enable.idempotence" "false"
  let conf ← set rd conf "message.send.max.retries" "3"
  let conf ←
    if cfg.kafkaConfFile="" then .ok conf
    else match files cfg.kafkaConfFile with
      | none => .error ("Cannot open kafka conf file: "++cfg.kafkaConfFile)
      | some text => setLines rd conf (splitLines '\n' text)
  let conf ← set rd conf "bootstrap.servers" cfg.kafkaBrokers
  let conf ← kafkaInitError "rdkafka set dr_cb: " (rd.setDrCb conf)
  let producer ← kafkaInitError "Failed to create Kafka producer: " (rd.createProducer conf)
  return ⟨producer,cfg.kafkaTopic⟩

end Constructor

/-- The settings of the first layer. -/
def defaults : List (String×String) :=
  [("compression.codec","snappy"),("batch.num.messages","1000"),("linger.ms","5"),
    ("enable.idempotence","false"),("message.send.max.retries","3")]

/-- The settings that a file assigns. -/
def filePairs (text : List Char) : List (String×String) :=
  (parse '\n' '=' '#' text).map fun pair => (String.ofList pair.1,String.ofList pair.2)

section Layers

variable (rd : RdKafka κ π)

/-- Set one pair after the other. -/
def setAll (conf : κ) (pairs : List (String×String)) : Except String κ :=
  pairs.foldlM (fun conf pair => set rd conf pair.1 pair.2) conf

/-- The constructor's purpose: the layers one over the other, the callback, the
producer. -/
def configured (pairs : List (String×String)) (cfg : AppConfig) :
    Except String (KafkaProducer π) := do
  let conf ← setAll rd rd.create (defaults++pairs++[("bootstrap.servers",cfg.kafkaBrokers)])
  let conf ← kafkaInitError "rdkafka set dr_cb: " (rd.setDrCb conf)
  let producer ← kafkaInitError "Failed to create Kafka producer: " (rd.createProducer conf)
  return ⟨producer,cfg.kafkaTopic⟩

/-- The C++ search for the separator finds where a line is cut. -/
theorem idxOf_cut (separator : Char) (line : List Char) :
    (line.idxOf? separator).map (fun eq => (line.take eq,line.drop (eq+1)))=
      cut separator line := by
  induction line with
  | nil => rfl
  | cons c line ih =>
    rw [List.idxOf?_cons,cut]
    by_cases hc : c=separator
    · rw [if_pos hc,if_pos (beq_iff_eq.mpr hc)]
      rfl
    · rw [if_neg hc,if_neg (by rwa [beq_iff_eq]),← ih,Option.map_map,Option.map_map]
      rfl

/-- The loop over the lines sets the pairs that they assign. -/
theorem setLines_pairs (lines : List (List Char)) (conf : κ) :
    setLines rd conf lines=setAll rd conf
      ((lines.filterMap (parseLine '=' '#')).map fun pair =>
        (String.ofList pair.1,String.ofList pair.2)) := by
  induction lines generalizing conf with
  | nil => rfl
  | cons line lines ih =>
    rw [setLines,List.filterMap_cons]
    by_cases hskip : line=[] ∨ line.head?=some '#'
    · have hnone : parseLine '=' '#' line=none := by
        rcases hskip with rfl | hcomment
        · rfl
        · rw [parseLine,if_pos hcomment]
      rw [if_pos hskip,hnone]
      exact ih conf
    · have hparse : parseLine '=' '#' line=cut '=' line := by
        rw [parseLine,if_neg (not_or.mp hskip).2]
      rw [if_neg hskip,hparse,← idxOf_cut]
      cases hfound : line.idxOf? '=' with
      | none => exact ih conf
      | some eq =>
        simp only [Option.map_some,List.map_cons,setAll,List.foldlM_cons]
        exact bind_congr fun next => ih next

/-- Without a file only the defaults are overridden. -/
theorem kafkaProducer_no_file (files : Files) (cfg : AppConfig) (hfile : cfg.kafkaConfFile="") :
    kafkaProducer rd files cfg=configured rd [] cfg := by
  simp only [kafkaProducer,configured,defaults,setAll,hfile,if_true,List.append_nil,
    List.foldlM_append,List.foldlM_cons,List.foldlM_nil,bind_assoc,pure_bind]
  rfl

/-- With a file its pairs are the second layer. -/
theorem kafkaProducer_file (files : Files) (cfg : AppConfig) (hfile : cfg.kafkaConfFile≠"")
    {text : List Char} (htext : files cfg.kafkaConfFile=some text) :
    kafkaProducer rd files cfg=configured rd (filePairs text) cfg := by
  simp only [kafkaProducer,configured,defaults,setAll,if_neg hfile,htext,setLines_pairs,
    List.foldlM_append,List.foldlM_cons,List.foldlM_nil,bind_assoc,pure_bind]
  rfl

/-- A file that cannot be opened ends the constructor after the defaults. -/
theorem kafkaProducer_unopened (files : Files) (cfg : AppConfig) (hfile : cfg.kafkaConfFile≠"")
    (hnone : files cfg.kafkaConfFile=none) :
    kafkaProducer rd files cfg=setAll rd rd.create defaults >>= fun _ =>
      .error ("Cannot open kafka conf file: "++cfg.kafkaConfFile) := by
  simp only [kafkaProducer,defaults,setAll,if_neg hfile,hnone,List.foldlM_cons,List.foldlM_nil,
    bind_assoc,pure_bind]
  rfl

end Layers

/-- A setting that a line of a file can assign. -/
def Assignable (pair : String×String) : Prop :=
  WellFormed '\n' '=' '#' (pair.1.toList,pair.2.toList)

/-- A file with one line for every setting. -/
def confFile (pairs : List (String×String)) : List Char :=
  render '\n' '=' (pairs.map fun pair => (pair.1.toList,pair.2.toList))

/-- The settings that are read from a file can be assigned. -/
theorem filePairs_assignable (text : List Char) : ∀ pair∈filePairs text,Assignable pair := by
  intro pair hpair
  obtain ⟨chars,hchars,rfl⟩ := List.mem_map.mp hpair
  have hwellFormed := parse_wellFormed (by decide) text chars hchars
  rwa [Assignable,String.toList_ofList,String.toList_ofList]

/-- Settings that are written to a file are read back. -/
theorem filePairs_confFile {pairs : List (String×String)} (h : ∀ pair∈pairs,Assignable pair) :
    filePairs (confFile pairs)=pairs := by
  have hchars : ∀ chars∈pairs.map fun pair => (pair.1.toList,pair.2.toList),
      WellFormed '\n' '=' '#' chars := by
    intro chars hmem
    obtain ⟨pair,hpair,rfl⟩ := List.mem_map.mp hmem
    exact h pair hpair
  rw [filePairs,confFile,parse_render (by decide) (by decide) hchars,List.map_map]
  refine (List.map_congr_left fun pair _ => ?_).trans (List.map_id pairs)
  simp only [Function.comp_apply,String.ofList_toList,id_eq]

/-- With any file that can be opened the constructor does what it is for, with the
settings that the file assigns: none from blank lines, comments and lines without
a `=`. These settings have keys without `=` that do not begin with `#`, and all
such settings can be assigned: the constructor does what it is for with any list
of them when the file has a line for each. -/
theorem kafkaProducer_conf_file (rd : RdKafka κ π) (files : Files) (cfg : AppConfig)
    (hfile : cfg.kafkaConfFile≠"") (text : List Char)
    (htext : files cfg.kafkaConfFile=some text) :
    kafkaProducer rd files cfg=configured rd (filePairs text) cfg ∧
    (∀ pair∈filePairs text,Assignable pair) ∧
    ∀ pairs,(∀ pair∈pairs,Assignable pair) →
      kafkaProducer rd (fun _ => some (confFile pairs)) cfg=configured rd pairs cfg := by
  refine ⟨kafkaProducer_file rd files cfg hfile htext,filePairs_assignable text,?_⟩
  intro pairs hpairs
  rw [kafkaProducer_file rd _ cfg hfile rfl,filePairs_confFile hpairs]

/-- The settings of the file, if there is one. -/
def secondLayer (files : Files) (cfg : AppConfig) : List (String×String) :=
  if cfg.kafkaConfFile="" then []
  else ((files cfg.kafkaConfFile).map filePairs).getD []

/-- The file cannot be opened. -/
def Unopened (files : Files) (cfg : AppConfig) : Prop :=
  cfg.kafkaConfFile≠"" ∧ files cfg.kafkaConfFile=none

section Errors

variable {rd : RdKafka κ π} {files : Files} {cfg : AppConfig}

/-- The constructor does what it is for unless the file cannot be opened. -/
theorem kafkaProducer_opened (h : ¬Unopened files cfg) :
    kafkaProducer rd files cfg=configured rd (secondLayer files cfg) cfg := by
  unfold secondLayer
  by_cases hfile : cfg.kafkaConfFile=""
  · rw [if_pos hfile,kafkaProducer_no_file rd files cfg hfile]
  · rw [if_neg hfile]
    cases htext : files cfg.kafkaConfFile with
    | none => exact absurd ⟨hfile,htext⟩ h
    | some text => exact kafkaProducer_file rd files cfg hfile htext

/-- A sequence that succeeds does so step by step. -/
theorem bind_ok {α β : Type u} {x : Except String α} {f : α → Except String β} {b : β}
    (h : x >>= f=.ok b) : ∃ a,x=.ok a ∧ f a=.ok b := by
  cases x with
  | ok a => exact ⟨a,rfl,h⟩
  | error e => cases h

/-- A sequence fails at its first failure. -/
theorem bind_error {α β : Type u} {x : Except String α} {f : α → Except String β} {e : String} :
    x >>= f=.error e ↔ x=.error e ∨ ∃ a,x=.ok a ∧ f a=.error e := by
  cases x with
  | ok a =>
    constructor
    · intro h
      exact .inr ⟨a,rfl,h⟩
    · rintro (h | ⟨b,h,herror⟩)
      · cases h
      · cases h
        exact herror
  | error d =>
    constructor
    · intro h
      cases h
      exact .inl rfl
    · rintro (h | ⟨b,h,-⟩)
      · cases h
        rfl
      · cases h

/-- A text in front of an `errstr` changes no success. -/
theorem kafkaInitError_ok {α : Type u} {what : String} {result : Except String α} {a : α} :
    kafkaInitError what result=.ok a ↔ result=.ok a := by
  cases result with
  | ok b => exact Iff.rfl
  | error e => exact iff_of_false nofun nofun

/-- The text of a failure. -/
theorem kafkaInitError_error {α : Type u} {what text : String} {result : Except String α} :
    kafkaInitError what result=.error text ↔ ∃ errstr,result=.error errstr ∧ text=what++errstr := by
  cases result with
  | ok a => exact iff_of_false nofun (fun ⟨_,h,_⟩ => nomatch h)
  | error e => exact ⟨fun h => ⟨e,rfl,(Except.error.inj h).symm⟩,by rintro ⟨_,h,rfl⟩; cases h; rfl⟩

/-- A setting is refused after the ones before it were accepted. -/
def Refused (rd : RdKafka κ π) (conf : κ) (pairs : List (String×String)) (text : String) : Prop :=
  ∃ before key val after mid errstr,pairs=before++(key,val)::after ∧
    setAll rd conf before=.ok mid ∧ rd.set mid key val=.error errstr ∧
    text="rdkafka conf set "++key++": "++errstr

/-- A list of settings fails at the first one that is refused. -/
theorem setAll_error {conf : κ} {pairs : List (String×String)} {text : String} :
    setAll rd conf pairs=.error text ↔ Refused rd conf pairs text := by
  induction pairs generalizing conf with
  | nil =>
    refine iff_of_false nofun ?_
    rintro ⟨before,key,val,after,mid,errstr,hpairs,-⟩
    exact absurd hpairs.symm (List.append_ne_nil_of_right_ne_nil _ (List.cons_ne_nil _ _))
  | cons pair pairs ih =>
    rw [setAll,List.foldlM_cons,bind_error]
    constructor
    · rintro (h | ⟨next,hnext,hrest⟩)
      · obtain ⟨errstr,herror,rfl⟩ := kafkaInitError_error.mp h
        exact ⟨[],pair.1,pair.2,pairs,conf,errstr,rfl,rfl,herror,rfl⟩
      · obtain ⟨before,key,val,after,mid,errstr,rfl,hbefore,herror,rfl⟩ := ih.mp hrest
        refine ⟨pair::before,key,val,after,mid,errstr,rfl,?_,herror,rfl⟩
        rw [setAll,List.foldlM_cons,hnext]
        exact hbefore
    · rintro ⟨before,key,val,after,mid,errstr,hpairs,hbefore,herror,rfl⟩
      cases before with
      | nil =>
        cases hbefore
        cases hpairs
        exact .inl (kafkaInitError_error.mpr ⟨errstr,herror,rfl⟩)
      | cons first before =>
        obtain ⟨rfl,rfl⟩ := List.cons.inj hpairs
        obtain ⟨next,hnext,hrest⟩ := bind_ok hbefore
        exact .inr ⟨next,hnext,ih.mpr ⟨before,key,val,after,mid,errstr,rfl,hrest,herror,rfl⟩⟩

/-- What has failed when no producer is made. -/
theorem configured_error {pairs : List (String×String)} {text : String} :
    configured rd pairs cfg=.error text ↔
      Refused rd rd.create (defaults++pairs++[("bootstrap.servers",cfg.kafkaBrokers)]) text ∨
      ∃ conf,
        setAll rd rd.create (defaults++pairs++[("bootstrap.servers",cfg.kafkaBrokers)])=.ok conf ∧
          ((∃ errstr,rd.setDrCb conf=.error errstr ∧ text="rdkafka set dr_cb: "++errstr) ∨
            ∃ called errstr,rd.setDrCb conf=.ok called ∧ rd.createProducer called=.error errstr ∧
              text="Failed to create Kafka producer: "++errstr) := by
  rw [configured,bind_error,setAll_error]
  refine or_congr_right (exists_congr fun conf => and_congr_right fun _ => ?_)
  rw [bind_error,kafkaInitError_error]
  refine or_congr_right (exists_congr fun called => ?_)
  rw [bind_error,kafkaInitError_ok,kafkaInitError_error]
  constructor
  · rintro ⟨hcalled,⟨errstr,herror,rfl⟩ | ⟨producer,-,h⟩⟩
    · exact ⟨errstr,hcalled,herror,rfl⟩
    · cases h
  · rintro ⟨errstr,hcalled,herror,rfl⟩
    exact ⟨hcalled,.inl ⟨errstr,herror,rfl⟩⟩

end Errors

/-- What the constructor throws, for any file and whatever librdkafka refuses: the
name of the first setting that is refused, in the order of the layers, with its
error; or the file that cannot be opened, after the defaults were accepted; or,
after all layers were accepted, the error of the callback or of the producer. -/
theorem kafkaProducer_error (rd : RdKafka κ π) (files : Files) (cfg : AppConfig)
    (text : String) :
    let layers := defaults++secondLayer files cfg++[("bootstrap.servers",cfg.kafkaBrokers)]
    kafkaProducer rd files cfg=.error text ↔
      (Unopened files cfg ∧ (Refused rd rd.create defaults text ∨
        (∃ conf,setAll rd rd.create defaults=.ok conf) ∧
          text="Cannot open kafka conf file: "++cfg.kafkaConfFile)) ∨
      (¬Unopened files cfg ∧ (Refused rd rd.create layers text ∨
        ∃ conf,setAll rd rd.create layers=.ok conf ∧
          ((∃ errstr,rd.setDrCb conf=.error errstr ∧ text="rdkafka set dr_cb: "++errstr) ∨
            ∃ called errstr,rd.setDrCb conf=.ok called ∧ rd.createProducer called=.error errstr ∧
              text="Failed to create Kafka producer: "++errstr))) := by
  intro layers
  by_cases hfile : Unopened files cfg
  · rw [kafkaProducer_unopened rd files cfg hfile.1 hfile.2,bind_error,setAll_error]
    simp only [hfile,true_and,not_true_eq_false,false_and,or_false,Except.error.injEq,
      exists_and_right,eq_comm]
  · rw [kafkaProducer_opened hfile,configured_error]
    simp only [hfile,false_and,not_false_eq_true,true_and,false_or]
    rfl

section Settings

variable {σ ν : Type v} [DecidableEq σ]

/-- librdkafka's documentation of its settings: a property name, which can be an
alias of another one, stands for a setting, and a `set` that succeeds stores the
value in that setting and in no other one. -/
structure Documented (rd : RdKafka κ π) (setting : String → σ) (stored : String → String → ν)
    (read : κ → σ → Option ν) : Prop where
  /-- `set` with a text. -/
  set : ∀ conf key val next,rd.set conf key val=.ok next → ∀ s,
    read next s=if setting key=s then some (stored key val) else read conf s
  /-- `set` with the callback. -/
  setDrCb : ∀ conf next,rd.setDrCb conf=.ok next → ∀ s,read next s=read conf s

/-- The settings with their values, last one first in force. -/
def assigned (setting : String → σ) (stored : String → String → ν)
    (pairs : List (String×String)) : List (σ×ν) :=
  pairs.map fun pair => (setting pair.1,stored pair.1 pair.2)

/-- A constructed producer has been configured with the settings of the file. -/
theorem kafkaProducer_configured {rd : RdKafka κ π} {files : Files} {cfg : AppConfig}
    {made : KafkaProducer π} (h : kafkaProducer rd files cfg=.ok made) :
    configured rd (secondLayer files cfg) cfg=.ok made := by
  by_cases hfile : Unopened files cfg
  · rw [kafkaProducer_unopened rd files cfg hfile.1 hfile.2] at h
    obtain ⟨_,_,h⟩ := bind_ok h
    cases h
  · rw [← kafkaProducer_opened hfile]
    exact h

/-- What has succeeded when a producer is made. -/
theorem configured_ok {rd : RdKafka κ π} {pairs : List (String×String)} {cfg : AppConfig}
    {made : KafkaProducer π} (h : configured rd pairs cfg=.ok made) :
    ∃ conf called,
      setAll rd rd.create (defaults++pairs++[("bootstrap.servers",cfg.kafkaBrokers)])=.ok conf ∧
      rd.setDrCb conf=.ok called ∧ rd.createProducer called=.ok made.producer ∧
      made.topicName=cfg.kafkaTopic := by
  obtain ⟨conf,hconf,h⟩ := bind_ok h
  obtain ⟨called,hcalled,h⟩ := bind_ok h
  obtain ⟨producer,hproducer,h⟩ := bind_ok h
  cases h
  exact ⟨conf,called,hconf,kafkaInitError_ok.mp hcalled,kafkaInitError_ok.mp hproducer,rfl⟩

variable {rd : RdKafka κ π} {setting : String → σ} {stored : String → String → ν}
variable {read : κ → σ → Option ν}

/-- After a list of settings the last one for each setting is in force. -/
theorem Documented.setAll (hdoc : Documented rd setting stored read) {conf next : κ}
    {pairs : List (String×String)} (h : setAll rd conf pairs=.ok next) (s : σ) :
    read next s=(lastValue s (assigned setting stored pairs)).or (read conf s) := by
  induction pairs generalizing conf with
  | nil =>
    cases h
    rfl
  | cons pair pairs ih =>
    rw [KafkaConfiguration.setAll,List.foldlM_cons] at h
    obtain ⟨mid,hset,hrest⟩ := bind_ok h
    have hmid := hdoc.set conf pair.1 pair.2 mid (kafkaInitError_ok.mp hset) s
    have hpairs : assigned setting stored (pair::pairs)=
        (setting pair.1,stored pair.1 pair.2)::assigned setting stored pairs := rfl
    rw [ih hrest,hmid,hpairs,lastValue_cons,Option.or_assoc]
    congr 1
    split <;> rfl

/-- The settings of a constructed producer: the broker list is that of the command
line, whatever the file says about it under any name; any other setting is that
of its last line in the file, or else the default, or else librdkafka's own. -/
theorem settings_layered (hdoc : Documented rd setting stored read) (files : Files)
    (cfg : AppConfig) (made : KafkaProducer π) (h : kafkaProducer rd files cfg=.ok made) :
    made.topicName=cfg.kafkaTopic ∧ ∃ conf,rd.createProducer conf=.ok made.producer ∧ ∀ s,
      read conf s=
        if setting "bootstrap.servers"=s then some (stored "bootstrap.servers" cfg.kafkaBrokers)
        else ((lastValue s (assigned setting stored (secondLayer files cfg))).or
          (lastValue s (assigned setting stored defaults))).or (read rd.create s) := by
  obtain ⟨conf,called,hconf,hcalled,hproducer,htopic⟩ := configured_ok (kafkaProducer_configured h)
  refine ⟨htopic,called,hproducer,fun s => ?_⟩
  have hlayers : assigned setting stored
      (defaults++secondLayer files cfg++[("bootstrap.servers",cfg.kafkaBrokers)])=
      assigned setting stored defaults++assigned setting stored (secondLayer files cfg)++
        [(setting "bootstrap.servers",stored "bootstrap.servers" cfg.kafkaBrokers)] := by
    simp only [assigned,List.map_append,List.map_cons,List.map_nil]
  rw [hdoc.setDrCb conf called hcalled,hdoc.setAll hconf,hlayers,lastValue_append,lastValue_append,
    lastValue_cons,lastValue_nil,Option.none_or]
  split
  · rfl
  · rw [Option.none_or]

end Settings

/-- The property that a name stands for. -/
def aliasOf (key : String) : String :=
  if key="metadata.broker.list" then "bootstrap.servers"
  else if key="queue.buffering.max.ms" then "linger.ms" else key

/-- A librdkafka with the properties of the first layer, two aliases and the
broker list. -/
def smallRdKafka : RdKafka (List (String×String)) (List (String×String)) where
  create := []
  set conf key val :=
    if aliasOf key∈"bootstrap.servers"::defaults.map Prod.fst then .ok (conf++[(aliasOf key,val)])
    else .error ("No such configuration property: \""++key++"\"")
  setDrCb := .ok
  createProducer := .ok

/-- It behaves as documented. -/
theorem smallRdKafka_documented : Documented smallRdKafka aliasOf (fun _ val => val)
    (fun conf s => lastValue s conf) where
  set conf key val next h s := by
    simp only [smallRdKafka] at h
    split at h
    · cases h
      rw [lastValue_append,lastValue_cons,lastValue_nil,Option.none_or]
      split <;> rfl
    · cases h
  setDrCb conf next h s := by
    cases h
    rfl

/-- A file with a comment, an alias of the broker list and a longer delay. -/
def sampleFile : List Char :=
  "# tuning\n\nqueue.buffering.max.ms=50\nmetadata.broker.list=elsewhere:9092\nno setting".toList

/-- A command line with a configuration file. -/
def sampleConfig : AppConfig := {kafkaConfFile := "kafka.conf"}

/-- The sample file assigns two settings. -/
theorem kafkaProducer_conf_file_sample :
    kafkaProducer smallRdKafka (fun _ => some sampleFile) sampleConfig=
      configured smallRdKafka
        [("queue.buffering.max.ms","50"),("metadata.broker.list","elsewhere:9092")]
        sampleConfig :=
  (kafkaProducer_conf_file smallRdKafka (fun _ => some sampleFile) sampleConfig (by decide)
    sampleFile rfl).1.trans (by rfl)

/-- With the sample file the brokers are those of the command line, the delay is
that of the file and the codec is the default. -/
theorem settings_layered_sample :
    ∃ made conf,kafkaProducer smallRdKafka (fun _ => some sampleFile) sampleConfig=.ok made ∧
      smallRdKafka.createProducer conf=.ok made.producer ∧
      lastValue "bootstrap.servers" conf=some "localhost:9092" ∧
      lastValue "linger.ms" conf=some "50" ∧ lastValue "compression.codec" conf=some "snappy" := by
  have hmade : ∃ made,
      kafkaProducer smallRdKafka (fun _ => some sampleFile) sampleConfig=.ok made := ⟨_,by rfl⟩
  obtain ⟨made,hmade⟩ := hmade
  obtain ⟨-,conf,hproducer,hread⟩ := settings_layered smallRdKafka_documented _ _ made hmade
  refine ⟨made,conf,hmade,hproducer,?_,?_,?_⟩
  · exact (hread "bootstrap.servers").trans (by decide +kernel)
  · exact (hread "linger.ms").trans (by decide +kernel)
  · exact (hread "compression.codec").trans (by decide +kernel)

end PacketPipe.KafkaConfiguration
