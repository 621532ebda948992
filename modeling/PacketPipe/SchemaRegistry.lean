import PacketPipe.IntegerOptions

/-!
# The Schema Registry lookup

`parse_url` and the constructor of `SchemaRegistryClient`, which asks the
registry once, at startup. The HTTP client and the JSON library are parameters.
The address that is asked is described without the searches in the text: what
precedes the first `://` is skipped, and what follows the last colon is read as
a port.
-/

namespace PacketPipe.SchemaRegistry

open ConfigParserModel IntegerOptions

universe u

/-- An exception of the constructor. -/
inductive ClientError
  /-- `SchemaRegistryUnavailableError`. -/
  | unavailable (what : String)
  /-- An exception of the standard library or of the JSON library. -/
  | other (what : String)
  deriving DecidableEq

/-- `httplib::Response`. -/
structure Response where
  /-- HTTP status. -/
  status : ℤ
  /-- Response body. -/
  body : String

/-- What the constructor uses of the HTTP client and of the JSON library. -/
structure Libraries (J : Type u) where
  /-- `Get` of a client for the host and port; an error has its text. -/
  get : String → Int32 → String → Except String Response
  /-- `nlohmann::json::parse`. -/
  parse : String → Except String J
  /-- `j.contains("id")`. -/
  containsId : J → Bool
  /-- `j["id"].get< int32_t>()`. -/
  getId : J → Except String Int32

/-- `std::string::find` of a text. -/
def find (pattern : List Char) : List Char → Option ℕ
  | [] => if pattern=[] then some 0 else none
  | c::text =>
    if pattern<+:c::text then some 0 else (find pattern text).map (·+1)

/-- `std::string::rfind` of a character. -/
def rfind (c : Char) : List Char → Option ℕ
  | [] => none
  | d::text =>
    match rfind c text with
    | some i => some (i+1)
    | none => if d=c then some 0 else none

/-- `parse_url`. -/
def parseUrl (url : String) : Except ClientError (String×Int32) :=
  match find [':','/','/'] url.toList with
  | none => .error (.unavailable ("Invalid Schema Registry URL: "++url))
  | some schemeEnd =>
    let hostPort := url.toList.drop (schemeEnd+3)
    match rfind ':' hostPort with
    | none => .ok (String.ofList hostPort,80)
    | some colon =>
      match stoi (String.ofList (hostPort.drop (colon+1))) with
      | .ok port => .ok (String.ofList (hostPort.take colon),port)
      | .error what => .error (.other what)

/-- The path of the latest version of a subject. -/
def latestPath (subject : String) : String := "/subjects/"++subject++"/versions/latest"

/-- The constructor's last part, which reads the id from the body. -/
def readId {J : Type u} (lib : Libraries J) (body : String) : Except ClientError Int32 :=
  match lib.parse body with
  | .error what => .error (.other what)
  | .ok j =>
    if lib.containsId j=false then
      .error (.unavailable ("Schema Registry response missing 'id' field: "++body))
    else match lib.getId j with
      | .error what => .error (.other what)
      | .ok id => .ok id

/-- `SchemaRegistryClient::SchemaRegistryClient`; the result is `schema_id_`. -/
def schemaRegistryClient {J : Type u} (lib : Libraries J) (url subject : String) :
    Except ClientError Int32 :=
  match parseUrl url with
  | .error e => .error e
  | .ok (host,port) =>
    match lib.get host port (latestPath subject) with
    | .error text =>
      .error (.unavailable ("Cannot reach Schema Registry at "++url++": "++text))
    | .ok res =>
      if res.status≠200 then
        .error (.unavailable ("Schema Registry returned HTTP "++toString res.status++
          " for subject '"++subject++"'. Register the schema first."))
      else readId lib res.body

section Searches

/-- `find` returns the first place where the pattern begins. -/
theorem find_some {pattern text : List Char} {i : ℕ} :
    find pattern text=some i ↔
      i≤text.length ∧ pattern<+:text.drop i ∧ ∀ k< i,¬pattern<+:text.drop k := by
  induction text generalizing i with
  | nil =>
    rw [find]
    constructor
    · intro h
      split at h
      · next hempty =>
        cases h
        exact ⟨le_refl 0,hempty ▸ List.prefix_refl _,fun k hk => absurd hk (Nat.not_lt_zero k)⟩
      · cases h
    · rintro ⟨hi,hbegins,-⟩
      rw [if_pos (List.prefix_nil.mp (List.drop_nil ▸ hbegins)),Nat.le_zero.mp hi]
  | cons c text ih =>
    rw [find]
    by_cases hhere : pattern<+:c::text
    · rw [if_pos hhere]
      constructor
      · intro h
        cases h
        exact ⟨Nat.zero_le _,hhere,fun k hk => absurd hk (Nat.not_lt_zero k)⟩
      · rintro ⟨-,-,hfirst⟩
        cases i with
        | zero => rfl
        | succ i => exact absurd hhere (hfirst 0 (Nat.succ_pos i))
    · rw [if_neg hhere,Option.map_eq_some_iff]
      constructor
      · rintro ⟨j,hj,rfl⟩
        obtain ⟨hlength,hbegins,hfirst⟩ := ih.mp hj
        refine ⟨Nat.succ_le_succ hlength,hbegins,fun k hk => ?_⟩
        cases k with
        | zero => exact hhere
        | succ k => exact hfirst k (Nat.lt_of_succ_lt_succ hk)
      · rintro ⟨hlength,hbegins,hfirst⟩
        cases i with
        | zero => exact absurd hbegins hhere
        | succ i =>
          refine ⟨i,ih.mpr ⟨Nat.le_of_succ_le_succ hlength,hbegins,fun k hk => ?_⟩,rfl⟩
          exact hfirst (k+1) (Nat.succ_lt_succ hk)

/-- `rfind` finds nothing when the character does not occur. -/
theorem rfind_none {c : Char} {text : List Char} : rfind c text=none ↔ c∉text := by
  induction text with
  | nil => exact iff_of_true rfl List.not_mem_nil
  | cons d text ih =>
    rw [rfind,List.mem_cons,not_or]
    cases hrest : rfind c text with
    | none =>
      have hmem := ih.mp hrest
      by_cases hd : d=c
      · simp [hd]
      · simp [hd,hmem,Ne.symm hd]
    | some i =>
      have hmem : c∈text := by
        by_contra hmem
        rw [ih.mpr hmem] at hrest
        cases hrest
      simp [hmem]

/-- `rfind` returns the last place of the character. -/
theorem rfind_some {c : Char} {text : List Char} {i : ℕ} (h : rfind c text=some i) :
    ∃ before behind,text=before++c::behind ∧ before.length=i ∧ c∉behind := by
  induction text generalizing i with
  | nil => cases h
  | cons d text ih =>
    rw [rfind] at h
    cases hrest : rfind c text with
    | none =>
      rw [hrest] at h
      dsimp only at h
      split at h
      · next hd =>
        cases h
        exact ⟨[],text,by rw [hd]; rfl,rfl,rfind_none.mp hrest⟩
      · cases h
    | some j =>
      rw [hrest] at h
      cases h
      obtain ⟨before,behind,rfl,hlength,hbehind⟩ := ih hrest
      exact ⟨d::before,behind,rfl,congrArg (·+1) hlength,hbehind⟩

/-- The last place of a character is found. -/
theorem rfind_last {c : Char} (before : List Char) {behind : List Char} (hbehind : c∉behind) :
    rfind c (before++c::behind)=some before.length := by
  induction before with
  | nil =>
    rw [List.nil_append,rfind,rfind_none.mpr hbehind]
    exact if_pos rfl
  | cons d before ih =>
    rw [List.cons_append,rfind,ih]
    rfl

end Searches

/-- The text of a URL behind its first `://`. -/
def BehindScheme (url hostPort : List Char) : Prop :=
  ∃ scheme,url=scheme++[':','/','/']++hostPort ∧
    ∀ k< scheme.length,¬[':','/','/']<+:url.drop k

/-- The host and the text of the port, if there is one: the last colon is in front
of the port. -/
def Divided (hostPort host : List Char) : Option (List Char) → Prop
  | none => host=hostPort ∧ ':'∉hostPort
  | some port => hostPort=host++(':'::port) ∧ ':'∉port

/-- The address that a URL gives. -/
def Addresses (url : String) (host : String) (port : Int32) : Prop :=
  ∃ hostPort,BehindScheme url.toList hostPort ∧
    (Divided hostPort host.toList none ∧ port=80 ∨
      ∃ text,Divided hostPort host.toList (some text) ∧ stoi (String.ofList text)=.ok port)

section Addresses

/-- What `parse_url` skips. -/
theorem behindScheme_iff {url hostPort : List Char} :
    BehindScheme url hostPort ↔
      ∃ i,find [':','/','/'] url=some i ∧ hostPort=url.drop (i+3) := by
  constructor
  · rintro ⟨scheme,rfl,hfirst⟩
    refine ⟨scheme.length,find_some.mpr ⟨by simp,?_,hfirst⟩,by simp⟩
    rw [List.append_assoc,List.drop_left]
    exact List.prefix_append _ _
  · rintro ⟨i,hfound,rfl⟩
    obtain ⟨hlength,⟨rest,hrest⟩,hfirst⟩ := find_some.mp hfound
    refine ⟨url.take i,?_,?_⟩
    · have hdrop : url.drop (i+3)=rest := by
        rw [← List.drop_drop,← hrest]
        rfl
      rw [hdrop,List.append_assoc,hrest,List.take_append_drop]
    · rw [List.length_take,Nat.min_eq_left hlength]
      exact hfirst

/-- Only one text is behind the scheme. -/
theorem BehindScheme.unique {url xs ys : List Char} (hx : BehindScheme url xs)
    (hy : BehindScheme url ys) : xs=ys := by
  obtain ⟨i,hi,rfl⟩ := behindScheme_iff.mp hx
  obtain ⟨j,hj,rfl⟩ := behindScheme_iff.mp hy
  rw [Option.some.inj (hi.symm.trans hj)]

/-- How `parse_url` divides the text behind the scheme. -/
theorem parseUrl_divided {url : String} {hostPort : List Char}
    (h : BehindScheme url.toList hostPort) :
    (∀ host : String,Divided hostPort host.toList none → parseUrl url=.ok (host,80)) ∧
    ∀ (host : String) text,Divided hostPort host.toList (some text) →
      parseUrl url=match stoi (String.ofList text) with
        | .ok port => .ok (host,port)
        | .error what => .error (.other what) := by
  obtain ⟨i,hfound,rfl⟩ := behindScheme_iff.mp h
  constructor
  · rintro host ⟨hhost,hcolon⟩
    rw [parseUrl,hfound]
    dsimp only
    rw [rfind_none.mpr hcolon]
    dsimp only
    rw [← hhost,String.ofList_toList]
  · rintro host text ⟨hdivided,hcolon⟩
    rw [parseUrl,hfound]
    dsimp only
    rw [hdivided,rfind_last host.toList hcolon]
    dsimp only
    rw [List.take_left,String.ofList_toList,← List.drop_drop,List.drop_left]
    rfl

/-- Every text is divided in one of the two ways. -/
theorem exists_divided (hostPort : List Char) :
    (∃ host : String,Divided hostPort host.toList none) ∨
      ∃ (host : String) (text : List Char),Divided hostPort host.toList (some text) := by
  cases hfound : rfind ':' hostPort with
  | none => exact .inl ⟨String.ofList hostPort,String.toList_ofList,rfind_none.mp hfound⟩
  | some i =>
    obtain ⟨before,behind,rfl,-,hbehind⟩ := rfind_some hfound
    exact .inr ⟨String.ofList before,behind,by rw [String.toList_ofList],hbehind⟩

/-- The addresses of `parse_url`. -/
theorem parseUrl_ok {url host : String} {port : Int32} :
    parseUrl url=.ok (host,port) ↔ Addresses url host port := by
  constructor
  · intro h
    cases hfound : find [':','/','/'] url.toList with
    | none =>
      rw [parseUrl,hfound] at h
      cases h
    | some i =>
      have hbehind := behindScheme_iff.mpr ⟨i,hfound,rfl⟩
      obtain ⟨hplain,hport⟩ := parseUrl_divided hbehind
      rcases exists_divided (url.toList.drop (i+3)) with ⟨own,hown⟩ | ⟨own,text,hown⟩
      · rw [hplain own hown] at h
        cases h
        exact ⟨_,hbehind,.inl ⟨hown,rfl⟩⟩
      · rw [hport own text hown] at h
        cases hread : stoi (String.ofList text) with
        | error what => rw [hread] at h; cases h
        | ok number =>
          rw [hread] at h
          cases h
          exact ⟨_,hbehind,.inr ⟨text,hown,hread⟩⟩
  · rintro ⟨hostPort,hbehind,⟨hown,rfl⟩ | ⟨text,hown,hread⟩⟩
    · exact (parseUrl_divided hbehind).1 host hown
    · rw [(parseUrl_divided hbehind).2 host text hown,hread]

/-- The text behind the last colon of an address is no number. -/
def BadPort (url what : String) : Prop :=
  ∃ hostPort,BehindScheme url.toList hostPort ∧ ∃ (host : String) (text : List Char),
    Divided hostPort host.toList (some text) ∧ stoi (String.ofList text)=.error what

/-- The exceptions of `std::stoi` that leave `parse_url`. -/
theorem parseUrl_other {url what : String} :
    parseUrl url=.error (.other what) ↔ BadPort url what := by
  constructor
  · intro h
    cases hfound : find [':','/','/'] url.toList with
    | none =>
      rw [parseUrl,hfound] at h
      cases h
    | some i =>
      have hbehind := behindScheme_iff.mpr ⟨i,hfound,rfl⟩
      obtain ⟨hplain,hport⟩ := parseUrl_divided hbehind
      rcases exists_divided (url.toList.drop (i+3)) with ⟨own,hown⟩ | ⟨own,text,hown⟩
      · rw [hplain own hown] at h
        cases h
      · rw [hport own text hown] at h
        cases hread : stoi (String.ofList text) with
        | error e =>
          rw [hread] at h
          cases h
          exact ⟨_,hbehind,own,text,hown,hread⟩
        | ok number => rw [hread] at h; cases h
  · rintro ⟨hostPort,hbehind,host,text,hown,hread⟩
    rw [(parseUrl_divided hbehind).2 host text hown,hread]

/-- An address with a positive port in decimal is read as it is written, whatever
colons the host has. -/
theorem addresses_numeral {url host : String} {digits : List Char} {n : ℕ}
    (hbehind : BehindScheme url.toList (host.toList++(':'::digits))) (hdigits : Numeral digits n)
    (hlow : 1≤n) (hhigh : n≤2147483647) : Addresses url host (Int32.ofNat n) := by
  refine ⟨_,hbehind,.inr ⟨digits,⟨rfl,fun hcolon => ?_⟩,?_⟩⟩
  · exact absurd (hdigits.2.1 ':' hcolon) (by decide)
  · refine (stoi_positive.mpr ⟨n,[],[],digits,[],hlow,hhigh,rfl,?_⟩).1
    rw [String.toList_ofList]
    exact hdigits.readAs

example : parseUrl "http://[::1]:8081/"=.ok ("[::1]",8081) := by rfl

end Addresses

section Client

variable {J : Type u}

/-- The registry has answered with the status that means success. -/
def Answered (lib : Libraries J) (url subject body : String) : Prop :=
  ∃ host port res,Addresses url host port ∧ lib.get host port (latestPath subject)=.ok res ∧
    res.status=200 ∧ res.body=body

/-- When an id is read. -/
theorem readId_ok {lib : Libraries J} {body : String} {id : Int32} :
    readId lib body=.ok id ↔
      ∃ j,lib.parse body=.ok j ∧ lib.containsId j=true ∧ lib.getId j=.ok id := by
  unfold readId
  cases hparse : lib.parse body with
  | error what => simp
  | ok j => cases hid : lib.containsId j <;> cases hget : lib.getId j <;> simp [hid,hget]

/-- When the JSON library throws. -/
theorem readId_other {lib : Libraries J} {body what : String} :
    readId lib body=.error (.other what) ↔ lib.parse body=.error what ∨
      ∃ j,lib.parse body=.ok j ∧ lib.containsId j=true ∧ lib.getId j=.error what := by
  unfold readId
  cases hparse : lib.parse body with
  | error e => simp
  | ok j => cases hid : lib.containsId j <;> cases hget : lib.getId j <;> simp [hid,hget]

/-- Only one address is asked. -/
theorem Answered.get {lib : Libraries J} {url subject body : String}
    (h : Answered lib url subject body) : ∃ host port,parseUrl url=.ok (host,port) ∧
      lib.get host port (latestPath subject)=.ok ⟨200,body⟩ := by
  obtain ⟨host,port,⟨status,own⟩,haddress,hget,rfl,rfl⟩ := h
  exact ⟨host,port,parseUrl_ok.mpr haddress,hget⟩

/-- The constructor behind a successful request. -/
theorem schemaRegistryClient_answered {lib : Libraries J} {url subject body : String}
    (h : Answered lib url subject body) :
    schemaRegistryClient lib url subject=readId lib body := by
  obtain ⟨host,port,haddress,hget⟩ := h.get
  rw [schemaRegistryClient,haddress]
  dsimp only
  rw [hget]
  dsimp only
  rw [if_neg (not_not_intro rfl)]

/-- Without a successful request the constructor throws, `std::stoi`'s exception
when the port is bad and its own otherwise. -/
theorem schemaRegistryClient_unanswered {lib : Libraries J} {url subject : String}
    (h : ∀ body,¬Answered lib url subject body) :
    (∃ what,schemaRegistryClient lib url subject=.error (.unavailable what) ∧
      ∀ what,¬BadPort url what) ∨
    ∃ what,schemaRegistryClient lib url subject=.error (.other what) ∧ BadPort url what := by
  cases hparsed : parseUrl url with
  | error e =>
    have hclient : schemaRegistryClient lib url subject=.error e := by
      rw [schemaRegistryClient,hparsed]
    cases e with
    | unavailable what =>
      refine .inl ⟨what,hclient,fun other hbad => ?_⟩
      rw [parseUrl_other.mpr hbad] at hparsed
      cases hparsed
    | other what => exact .inr ⟨what,hclient,parseUrl_other.mp hparsed⟩
  | ok address =>
    obtain ⟨host,port⟩ := address
    have hgood : ∀ what,¬BadPort url what := fun what hbad => by
      rw [parseUrl_other.mpr hbad] at hparsed
      cases hparsed
    rw [schemaRegistryClient,hparsed]
    dsimp only
    cases hget : lib.get host port (latestPath subject) with
    | error text => exact .inl ⟨_,rfl,hgood⟩
    | ok res =>
      dsimp only
      have hstatus : res.status≠200 := fun hstatus =>
        h res.body ⟨host,port,res,parseUrl_ok.mp hparsed,hget,hstatus,rfl⟩
      rw [if_pos hstatus]
      exact .inl ⟨_,rfl,hgood⟩

/-- A successful request has one answer, and its port was read. -/
theorem Answered.unique {lib : Libraries J} {url subject body : String}
    (h : Answered lib url subject body) :
    (∀ other,Answered lib url subject other → other=body) ∧ ∀ what,¬BadPort url what := by
  obtain ⟨host,port,haddress,hget⟩ := h.get
  constructor
  · intro other hother
    obtain ⟨host',port',haddress',hget'⟩ := hother.get
    cases haddress.symm.trans haddress'
    cases hget.symm.trans hget'
    rfl
  · intro what hbad
    rw [parseUrl_other.mpr hbad] at haddress
    cases haddress

end Client

/-- The outcome of the lookup, for any URL and whatever the registry answers. The
client has the id of the answer exactly when the address of the URL answered with
status 200 and a JSON text whose `id` the JSON library converts to an `int32_t`. What
the code does not report as an unavailable registry is a port that `std::stoi` refuses,
and a body that is no JSON or has an `id` that is not converted; everything else is
reported as one. -/
theorem schemaRegistryClient_outcome {J : Type u} (lib : Libraries J) (url subject : String) :
    (∀ id,schemaRegistryClient lib url subject=.ok id ↔ ∃ body j,
      Answered lib url subject body ∧ lib.parse body=.ok j ∧ lib.containsId j=true ∧
        lib.getId j=.ok id) ∧
    (∀ what,schemaRegistryClient lib url subject=.error (.other what) ↔
      BadPort url what ∨ ∃ body,Answered lib url subject body ∧
        (lib.parse body=.error what ∨
          ∃ j,lib.parse body=.ok j ∧ lib.containsId j=true ∧ lib.getId j=.error what)) := by
  by_cases hanswered : ∃ body,Answered lib url subject body
  · obtain ⟨body,hbody⟩ := hanswered
    obtain ⟨hone,hgood⟩ := hbody.unique
    rw [schemaRegistryClient_answered hbody]
    constructor
    · intro id
      rw [readId_ok]
      constructor
      · rintro ⟨j,hread⟩
        exact ⟨body,j,hbody,hread⟩
      · rintro ⟨other,j,hother,hread⟩
        exact ⟨j,hone other hother ▸ hread⟩
    · intro what
      rw [readId_other]
      constructor
      · exact fun hread => .inr ⟨body,hbody,hread⟩
      · rintro (hbad | ⟨other,hother,hread⟩)
        · exact absurd hbad (hgood what)
        · exact hone other hother ▸ hread
  · have hnone : ∀ body,¬Answered lib url subject body := fun body h => hanswered ⟨body,h⟩
    rcases schemaRegistryClient_unanswered hnone with ⟨what,hclient,hgood⟩ | ⟨what,hclient,hbad⟩
    · rw [hclient]
      constructor
      · exact fun id => iff_of_false nofun fun ⟨body,_,h,_⟩ => hnone body h
      · refine fun other => iff_of_false nofun ?_
        rintro (h | ⟨body,h,-⟩)
        · exact hgood other h
        · exact hnone body h
    · rw [hclient]
      constructor
      · exact fun id => iff_of_false nofun fun ⟨body,_,h,_⟩ => hnone body h
      · intro other
        constructor
        · intro h
          cases h
          exact .inl hbad
        · rintro (h | ⟨body,h,-⟩)
          · rw [← hclient]
            have hparsed := parseUrl_other.mpr h
            rw [schemaRegistryClient,hparsed]
          · exact absurd h (hnone body)

end PacketPipe.SchemaRegistry
