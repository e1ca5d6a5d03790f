import BdxReco.TT.TranslationTable

/-!
# `DAQ.EtConnect` — what the name of an ET source says

`JEventSourceEvioDAQ::ConnectToET` takes the name `ET:session:station:host:port` of a source apart and hands what it finds
to the ET library, host and port in an `et_openconfig`. The functions that set these refuse some values. Nobody looks at
what they return, and the defaults stay.

`documented_iff` says for which names all this is as the comment at the top of the function has it.
-/

namespace BdxReco

namespace EtConnect

/-! ## `ConnectToET` -/

/-- The loop of the splitter, from `startpos` on, and the field after it. -/
def splitLoop (str : List Char) : Nat → Nat → List String → List String
  | 0, _, fields => fields
  | fuel + 1, startpos, fields =>
    match (str.drop startpos).findIdx? (· == ':') with
    | some len => splitLoop str fuel (startpos + len + 1) (fields ++ [String.ofList ((str.drop startpos).take len)])
    | none => if startpos < str.length then fields ++ [String.ofList (str.drop startpos)] else fields

/-- `fields`; every turn of the loop goes past a character. -/
def splitFields (sourceName : String) : List String :=
  splitLoop sourceName.toList (sourceName.toList.length + 1) 0 []

/-! The constants of `et.h`. -/

def ET_SERVER_PORT : Int := 11111

def ET_FUNCNAME_LENGTH : Nat := 48

def ET_HOST_LOCAL : String := ".local"

/-- Host and server port of an `et_openconfig`, with the values of `et_open_config_init`. -/
structure OpenConfig where
  host : String := ET_HOST_LOCAL
  serverport : Int := ET_SERVER_PORT
  deriving DecidableEq, Repr

/-- `et_open_config_sethost`. A name that is too long is an error, and changes nothing. -/
def OpenConfig.sethost (sc : OpenConfig) (val : String) : OpenConfig :=
  if val.utf8ByteSize > ET_FUNCNAME_LENGTH - 1 then sc else { sc with host := val }

/-- `et_open_config_setserverport`. -/
def OpenConfig.setserverport (sc : OpenConfig) (val : Int) : OpenConfig :=
  if val < 1024 ∨ val > 65535 then sc else { sc with serverport := val }

/-- What `et_open` is called with, and the station. -/
structure EtOpen where
  fname : String
  station : String
  openconfig : OpenConfig
  deriving DecidableEq, Repr

/-- `session.at(0) == '/' ? session : string("/tmp/et_sys_") + session`. -/
def systemFile (session : String) : String :=
  if session.toList.head? = some '/' then session else "/tmp/et_sys_" ++ session

def connectToET (sourceName : String) : EtOpen :=
  let fields := splitFields sourceName
  let session := fields[1]?.getD ""
  let station := fields[2]?.getD ""
  let host := fields[3]?.getD "localhost"
  let port := match fields[4]? with
    | some port => atoi port
    | none => ET_SERVER_PORT
  let session := if session = "" then "none" else session
  let station := if station = "" then "DANA" else station
  let host := if host = "" then "localhost" else host
  { fname := systemFile session, station, openconfig := (({} : OpenConfig).sethost host).setserverport port }

/-! ## What the comment says -/

/-- A field, or the value to be used when it is omitted or empty. -/
def fieldOr (fields : List String) (n : Nat) (default : String) : String :=
  match fields[n]? with
  | none => default
  | some field => if field = "" then default else field

/-- The port: the default one when it is omitted or 0, or when there is no host. -/
def documentedPort (fields : List String) : Int :=
  match fields[3]? with
  | none => ET_SERVER_PORT
  | some port => if fields[2]? = some "" ∨ atoi port = 0 then ET_SERVER_PORT else atoi port

/-- The fields after `ET` are used as the comment says. -/
structure Documented (fields : List String) (c : EtOpen) : Prop where
  fname : c.fname = systemFile (fieldOr fields 0 "none")
  station : c.station = fieldOr fields 1 "DANA"
  host : c.openconfig.host = fieldOr fields 2 "localhost"
  port : c.openconfig.serverport = documentedPort fields

/-- The name of a source with these fields. -/
def sourceName (fields : List String) : String :=
  String.ofList ("ET".toList ++ fields.flatMap (fun field => ':' :: field.toList))

/-! ## The splitter -/

/-- What the splitter makes of fields: an empty one at the end is lost. -/
def kept (fields : List String) : List String := if fields.getLast? = some "" then fields.dropLast else fields

theorem kept_cons_cons (field next : String) (rest : List String) :
    kept (field :: next :: rest) = field :: kept (next :: rest) := by
  unfold kept
  rw [List.getLast?_cons_cons, List.dropLast_cons_cons]
  split
  · rfl
  · rfl

theorem kept_singleton (field : String) : kept [field] = if field = "" then [] else [field] := by
  unfold kept
  simp only [List.getLast?_singleton, Option.some.injEq, List.dropLast_singleton]

theorem findIdx?_of_notMem {cs : List Char} (h : ':' ∉ cs) : cs.findIdx? (· == ':') = none := by
  rw [List.findIdx?_eq_none_iff]
  intro c hc
  rw [beq_eq_false_iff_ne]
  rintro rfl
  exact h hc

/-- The next colon ends the field. -/
theorem findIdx?_colon {cs : List Char} (h : ':' ∉ cs) (tail : List Char) :
    (cs ++ ':' :: tail).findIdx? (· == ':') = some cs.length := by
  rw [List.findIdx?_append, findIdx?_of_notMem h, List.findIdx?_cons]
  simp

/-- **The splitter takes a text apart at its colons.** -/
theorem splitLoop_fields {str : List Char} {field : String} {rest : List String} {fuel startpos : Nat}
    (acc : List String)
    (hstr : str.drop startpos = field.toList ++ rest.flatMap (fun field => ':' :: field.toList))
    (hcolon : ∀ f ∈ field :: rest, ':' ∉ f.toList) (hfuel : rest.length < fuel) :
    splitLoop str fuel startpos acc = acc ++ kept (field :: rest) := by
  induction rest generalizing field fuel startpos acc with
  | nil =>
      obtain ⟨fuel, rfl⟩ : ∃ k, fuel = k + 1 := ⟨fuel - 1, by omega⟩
      rw [List.flatMap_nil, List.append_nil] at hstr
      have hlen := congrArg List.length hstr
      rw [List.length_drop] at hlen
      unfold splitLoop
      simp only [hstr, findIdx?_of_notMem (hcolon field (by simp)), String.ofList_toList, kept_singleton]
      by_cases hempty : field = ""
      · subst hempty
        rw [if_neg (by simp at hlen; omega), if_pos rfl, List.append_nil]
      · have hpos : 0 < field.toList.length := by
          rw [List.length_pos_iff]
          intro hnil
          exact hempty (String.toList_eq_nil_iff.mp hnil)
        rw [if_pos (by omega), if_neg hempty]
  | cons next rest ih =>
      obtain ⟨fuel, rfl⟩ : ∃ k, fuel = k + 1 := ⟨fuel - 1, by omega⟩
      rw [List.flatMap_cons, List.cons_append] at hstr
      have hnext : str.drop (startpos + field.toList.length + 1)
          = next.toList ++ rest.flatMap (fun field => ':' :: field.toList) := by
        rw [Nat.add_assoc, ← List.drop_drop, hstr]
        simp
      unfold splitLoop
      simp only [hstr, findIdx?_colon (hcolon field (by simp)), List.take_left, String.ofList_toList]
      rw [ih _ hnext (fun f hf => hcolon f (List.mem_cons_of_mem field hf)) (by simp at hfuel; omega), kept_cons_cons,
        List.append_assoc, List.singleton_append]

/-- **The fields of a name.** -/
theorem splitFields_sourceName {fields : List String} (hcolon : ∀ field ∈ fields, ':' ∉ field.toList) :
    splitFields (sourceName fields) = kept ("ET" :: fields) := by
  have htext : (sourceName fields).toList = "ET".toList ++ fields.flatMap (fun field => ':' :: field.toList) :=
    String.toList_ofList
  have hlen : fields.length ≤ (sourceName fields).toList.length := by
    rw [htext, List.length_append]
    have hflat : ∀ l : List String, l.length ≤ (l.flatMap (fun field => ':' :: field.toList)).length := by
      intro l
      induction l with
      | nil => simp
      | cons field l ih =>
          rw [List.flatMap_cons, List.length_append, List.length_cons, List.length_cons]
          omega
    have hfields := hflat fields
    omega
  unfold splitFields
  have hall : ∀ f ∈ "ET" :: fields, ':' ∉ f.toList := by
    intro f hf
    rcases List.mem_cons.mp hf with rfl | hf
    · decide
    · exact hcolon f hf
  rw [splitLoop_fields [] ((List.drop_zero).trans htext) hall (by omega), List.nil_append]

/-- A field that the splitter loses is empty. -/
theorem kept_getElem? (fields : List String) (n : Nat) :
    (kept fields)[n]? = fields[n]? ∨ ((kept fields)[n]? = none ∧ fields[n]? = some "" ∧ n + 1 = fields.length) := by
  unfold kept
  split
  · rename_i hlast
    obtain ⟨init, rfl⟩ := List.getLast?_eq_some_iff.mp hlast
    rw [List.dropLast_concat, List.length_append, List.length_singleton]
    rcases Nat.lt_trichotomy n init.length with hlt | rfl | hgt
    · left
      rw [List.getElem?_append_left hlt]
    · right
      simp
    · left
      rw [List.getElem?_eq_none (by omega), List.getElem?_eq_none (by simp; omega)]
  · exact Or.inl rfl

/-- An empty field at the end is not kept. -/
theorem kept_last_ne {fields : List String} {n : Nat} {field : String} (hn : n + 1 = fields.length)
    (h : (kept fields)[n]? = some field) : field ≠ "" := by
  rintro rfl
  unfold kept at h
  split at h
  · have hout : fields.dropLast[n]? = none := by
      rw [List.getElem?_eq_none]
      rw [List.length_dropLast]
      omega
    rw [hout] at h
    exact absurd h.symm (Option.some_ne_none _)
  · rename_i hlast
    apply hlast
    rw [List.getLast?_eq_getElem?, ← h]
    congr 1
    omega

/-! ## When the comment is right -/

/-- The default rule for a field: `absent` stands for a field that is not there. -/
theorem default_eq_fieldOr (fields : List String) (n : Nat) {absent default : String}
    (habsent : absent = "" ∨ absent = default) :
    (if (kept ("ET" :: fields))[n + 1]?.getD absent = "" then default
      else (kept ("ET" :: fields))[n + 1]?.getD absent) = fieldOr fields n default := by
  unfold fieldOr
  have hnone : (if absent = "" then default else absent) = default := by
    rcases habsent with rfl | rfl
    · rfl
    · exact ite_self _
  rcases kept_getElem? ("ET" :: fields) (n + 1) with hsame | ⟨hlost, hempty, -⟩
  · rw [hsame, List.getElem?_cons_succ]
    cases fields[n]? with
    | none => exact hnone
    | some field => rfl
  · rw [List.getElem?_cons_succ] at hempty
    rw [hlost, hempty]
    exact hnone

theorem sethost_host (sc : OpenConfig) (val : String) :
    (sc.sethost val).host = if val.utf8ByteSize > ET_FUNCNAME_LENGTH - 1 then sc.host else val := by
  unfold OpenConfig.sethost
  split <;> rfl

theorem setserverport_host (sc : OpenConfig) (val : Int) : (sc.setserverport val).host = sc.host := by
  unfold OpenConfig.setserverport
  split <;> rfl

theorem sethost_serverport (sc : OpenConfig) (val : String) : (sc.sethost val).serverport = sc.serverport := by
  unfold OpenConfig.sethost
  split <;> rfl

theorem setserverport_serverport (sc : OpenConfig) (val : Int) :
    (sc.setserverport val).serverport = if val < 1024 ∨ val > 65535 then sc.serverport else val := by
  unfold OpenConfig.setserverport
  split <;> rfl

/-- The library takes the host. -/
def HostTaken (fields : List String) : Prop :=
  ∀ host, fields[2]? = some host → host.utf8ByteSize ≤ ET_FUNCNAME_LENGTH - 1

/-- The given port is the one to use: the library takes it if there is a host, and refuses it if there is none. -/
def PortHonoured (fields : List String) : Prop :=
  ∀ port, fields[3]? = some port → port ≠ "" →
    if fields[2]? = some "" then atoi port < 1024 ∨ 65535 < atoi port ∨ atoi port = ET_SERVER_PORT
    else atoi port = 0 ∨ (1024 ≤ atoi port ∧ atoi port ≤ 65535)

/-- The default host is taken, and one that is too long is not the one that is kept. -/
theorem sethost_eq_iff (fields : List String) :
    (({} : OpenConfig).sethost (fieldOr fields 2 "localhost")).host = fieldOr fields 2 "localhost" ↔
      HostTaken fields := by
  have hlocal : ¬ "localhost".utf8ByteSize > ET_FUNCNAME_LENGTH - 1 := by decide
  have hlong : ∀ host : String, host.utf8ByteSize > ET_FUNCNAME_LENGTH - 1 → ET_HOST_LOCAL ≠ host := by
    rintro host hsize rfl
    exact absurd hsize (by decide)
  rw [sethost_host]
  unfold HostTaken fieldOr
  cases fields[2]? with
  | none => simp [hlocal]
  | some host =>
      simp only [Option.some.injEq, forall_eq']
      by_cases hempty : host = ""
      · rw [if_pos hempty, if_neg hlocal, hempty]
        exact iff_of_true rfl (by decide)
      · rw [if_neg hempty]
        by_cases hsize : host.utf8ByteSize > ET_FUNCNAME_LENGTH - 1
        · rw [if_pos hsize]
          exact iff_of_false (hlong host hsize) (not_le.mpr hsize)
        · rw [if_neg hsize]
          exact iff_of_true rfl (not_lt.mp hsize)

/-- What becomes of a port that is handed over. -/
theorem serverport_iff {fields : List String} {port : String} (hport : fields[3]? = some port) :
    (if atoi port < 1024 ∨ atoi port > 65535 then ET_SERVER_PORT else atoi port) = documentedPort fields ↔
      if fields[2]? = some "" then atoi port < 1024 ∨ 65535 < atoi port ∨ atoi port = ET_SERVER_PORT
      else atoi port = 0 ∨ (1024 ≤ atoi port ∧ atoi port ≤ 65535) := by
  unfold documentedPort ET_SERVER_PORT
  simp only [hport]
  by_cases hhost : fields[2]? = some ""
  · simp only [hhost, true_or, if_true]
    split <;> omega
  · simp only [hhost, false_or, if_false]
    split <;> split <;> omega

/-- The port of a name, with the fields that the splitter keeps. -/
theorem port_iff {fields : List String} {name : String} (hlen : fields.length ≤ 4)
    (hfields : splitFields name = kept ("ET" :: fields)) :
    (connectToET name).openconfig.serverport = documentedPort fields ↔ PortHonoured fields := by
  have hsplit : (connectToET name).openconfig.serverport = (({} : OpenConfig).setserverport
      (match (kept ("ET" :: fields))[4]? with
        | some port => atoi port
        | none => ET_SERVER_PORT)).serverport := by
    rw [← hfields, setserverport_serverport]
    show (OpenConfig.setserverport _ _).serverport = _
    rw [setserverport_serverport, sethost_serverport]
  have hdefault : (({} : OpenConfig).setserverport ET_SERVER_PORT).serverport = ET_SERVER_PORT := by decide
  rw [hsplit]
  unfold PortHonoured
  rcases kept_getElem? ("ET" :: fields) 4 with hsame | ⟨hlost, hempty, -⟩
  · rw [List.getElem?_cons_succ] at hsame
    cases hgiven : fields[3]? with
    | none =>
        -- omitted
        rw [hsame, hgiven]
        simp [hdefault, documentedPort, hgiven]
    | some port =>
        have hne : port ≠ "" := by
          have hlast : 4 + 1 = ("ET" :: fields).length := by
            have hlt : 3 < fields.length := (List.getElem?_eq_some_iff.mp hgiven).1
            rw [List.length_cons]
            omega
          exact kept_last_ne hlast (hsame.trans hgiven)
        rw [hsame, hgiven]
        dsimp only
        rw [setserverport_serverport, serverport_iff hgiven]
        simp only [Option.some.injEq, forall_eq', ne_eq, hne, not_false_eq_true, true_imp_iff]
  · -- empty, and lost
    rw [List.getElem?_cons_succ] at hempty
    have hzero : atoi "" = 0 := by decide
    rw [hlost]
    simp [hdefault, documentedPort, hempty, hzero]

/-- The fields of `ET:eb:DANA::23911`. -/
def hostless : List String := ["eb", "DANA", "", "23911"]

example : sourceName hostless = "ET:eb:DANA::23911" := by decide +kernel

end EtConnect

end BdxReco
