import LibPaxos.Config

namespace LibPaxos

open Text

-- What a line of the file says.
inductive Directive where
  | acceptor (id : Int) (addr : Address)
  | proposer (id : Int) (addr : Address)
  | setting (update : PaxosSettings → PaxosSettings)

-- An id, an address and a port.
def declaration (rest : List UInt8) : Option (Int × Address) :=
  (scanInt rest).bind fun (id, rest) =>
    (scanWord rest).bind fun (address, rest) =>
      (scanInt rest).map fun (port, _) => (id, ⟨address, port⟩)

def optionUpdate (opt : ConfigOption) (value : List UInt8) :
    Option (PaxosSettings → PaxosSettings) :=
  match opt.type with
  | .boolean store => (parseBoolean (some value)).map store
  | .integer store => (parseInteger (some value)).map store
  | .string store => (parseString (some value)).map store
  | .verbosity store => (parseVerbosity (some value)).toOption.bind (Option.map store)

def setting (key value : List UInt8) : Option (PaxosSettings → PaxosSettings) :=
  (lookupOption key).bind fun opt => optionUpdate opt value

-- A keyword, a space and what the keyword asks for.
def directive (text : List UInt8) : Option Directive :=
  (strsep 32 text).2.bind fun rest =>
    if strcaseeq (strsep 32 text).1 (bytes "a") then
      (declaration rest).map fun d => .acceptor d.1 d.2
    else if strcaseeq (strsep 32 text).1 (bytes "p") then
      (declaration rest).map fun d => .proposer d.1 d.2
    else (setting (strsep 32 text).1 (trim rest)).map .setting

def lineText (line : List UInt8) : List UInt8 := trim (cstring line)

def lineDirective (line : List UInt8) : Option Directive :=
  if skipsLine line then none else directive (lineText line)

def wellFormed (line : List UInt8) : Bool :=
  skipsLine line || (directive (lineText line)).isSome

def Directive.acceptor? : Directive → Option (Int × Address)
  | .acceptor id addr => some (id, addr)
  | _ => none

def Directive.proposer? : Directive → Option (Int × Address)
  | .proposer id addr => some (id, addr)
  | _ => none

def Directive.setting? : Directive → Option (PaxosSettings → PaxosSettings)
  | .setting update => some update
  | _ => none

def acceptorsOf (lines : List (List UInt8)) : List (Int × Address) :=
  lines.filterMap fun line => (lineDirective line).bind Directive.acceptor?

def proposersOf (lines : List (List UInt8)) : List (Int × Address) :=
  lines.filterMap fun line => (lineDirective line).bind Directive.proposer?

def settingsOf (lines : List (List UInt8)) : List (PaxosSettings → PaxosSettings) :=
  lines.filterMap fun line => (lineDirective line).bind Directive.setting?

-- The word that is copied to the buffer.
def addressWord (rest : List UInt8) : Option (List UInt8) :=
  (scanInt rest).bind fun r => (scanWord r.2).map Prod.fst

-- The address fits the buffer, and there is an entry left for it.
def SafeAddress (stored : Nat) (rest : List UInt8) : Prop :=
  (∀ address ∈ addressWord rest, address.length ≤ 127) ∧
    ((declaration rest).isSome → stored < MAX_ADDR)

-- There is a space behind the keyword, and an address line has a safe address.
def SafeLine (before : List (List UInt8)) (line : List UInt8) : Prop :=
  skipsLine line = true ∨ ∃ rest, (strsep 32 (lineText line)).2 = some rest ∧
    if strcaseeq (strsep 32 (lineText line)).1 (bytes "a") then
      SafeAddress (acceptorsOf before).length rest
    else if strcaseeq (strsep 32 (lineText line)).1 (bytes "p") then
      SafeAddress (proposersOf before).length rest
    else True

-- The lines up to the first that is not well-formed are safe.
def SafeFrom (before : List (List UInt8)) : List (List UInt8) → Prop
  | [] => True
  | line :: rest => SafeLine before line ∧ (wellFormed line → SafeFrom (before ++ [line]) rest)

-- The table holds these addresses, in this order.
structure AddressTable.Holds (table : AddressTable) (decls : List (Int × Address)) : Prop where
  count : table.count = decls.length
  entries : table.entries =
    decls.map (fun d => some d.2) ++ List.replicate (MAX_ADDR - decls.length) none

theorem AddressTable.Holds.empty : AddressTable.empty.Holds [] := ⟨rfl, rfl⟩

theorem AddressTable.Holds.length_le {table : AddressTable} {decls : List (Int × Address)}
    (h : table.Holds decls) : decls.length ≤ MAX_ADDR := by
  have hlen := table.length
  rw [h.entries, List.length_append, List.length_map, List.length_replicate] at hlen
  omega

-- One more address, if there is an entry left.
theorem AddressTable.Holds.init {table : AddressTable} {decls : List (Int × Address)}
    (h : table.Holds decls) (d : Int × Address) (hroom : decls.length < MAX_ADDR) :
    ∃ table', addressInit { table with count := table.count + 1 } table.count d.2 = .ok table' ∧
      table'.Holds (decls ++ [d]) := by
  unfold addressInit
  rw [if_pos (h.count ▸ hroom)]
  refine ⟨_, rfl, by simp [h.count], ?_⟩
  have hfree : List.replicate (MAX_ADDR - decls.length) (none : Option Address) =
      none :: List.replicate (MAX_ADDR - (decls ++ [d]).length) none := by
    rw [List.length_append, ← List.replicate_succ]
    congr 1
    simp only [List.length_singleton]
    omega
  dsimp only
  rw [h.entries, h.count, hfree, List.set_append_right _ _ (by simp), List.length_map,
    Nat.sub_self, List.set_cons_zero, List.map_append, List.append_assoc]
  rfl

-- What becomes of an address line, next to what becomes of its table.
inductive AddressRead (decls : List (Int × Address)) (rest : List UInt8) :
    Except Fault (AddressTable × Bool) → Prop where
  | fault {fault : Fault} : ¬SafeAddress decls.length rest → AddressRead decls rest (.error fault)
  | reject {table : AddressTable} : SafeAddress decls.length rest → declaration rest = none →
      AddressRead decls rest (.ok (table, false))
  | accept {d : Int × Address} {table : AddressTable} : SafeAddress decls.length rest →
      declaration rest = some d → table.Holds (decls ++ [d]) →
      AddressRead decls rest (.ok (table, true))

theorem AddressTable.Holds.read {table : AddressTable} {decls : List (Int × Address)}
    (h : table.Holds decls) (rest : List UInt8) :
    AddressRead decls rest (parseNextAddress (some rest) table) := by
  unfold parseNextAddress parseAddress
  dsimp only
  cases hid : scanInt rest with
  | none =>
      refine .reject ⟨?_, ?_⟩ ?_
      · simp [addressWord, hid]
      · simp [declaration, hid]
      · simp [declaration, hid]
  | some first =>
      dsimp only
      cases hword : scanWord first.2 with
      | none =>
          refine .reject ⟨?_, ?_⟩ ?_
          · simp [addressWord, hid, hword]
          · simp [declaration, hid, hword]
          · simp [declaration, hid, hword]
      | some second =>
          have haddress : addressWord rest = some second.1 := by simp [addressWord, hid, hword]
          dsimp only
          split_ifs with hlong
          · refine .fault fun hsafe => ?_
            have := hsafe.1 second.1 haddress
            omega
          · have hshort : ∀ address ∈ addressWord rest, address.length ≤ 127 := by
              intro address ha
              rw [haddress] at ha
              rw [← Option.some.inj ha]
              omega
            cases hport : scanInt second.2 with
            | none =>
                have hnone : declaration rest = none := by simp [declaration, hid, hword, hport]
                exact .reject ⟨hshort, by simp [hnone]⟩ hnone
            | some third =>
                have hsome : declaration rest = some (first.1, ⟨second.1, third.1⟩) := by
                  simp [declaration, hid, hword, hport]
                by_cases hroom : decls.length < MAX_ADDR
                · obtain ⟨table', hinit, hnew⟩ := h.init (first.1, ⟨second.1, third.1⟩) hroom
                  dsimp only at hinit ⊢
                  rw [hinit]
                  exact .accept ⟨hshort, fun _ => hroom⟩ hsome hnew
                · have hfull : addressInit { table with count := table.count + 1 } table.count
                      ⟨second.1, third.1⟩ = .error .outOfBounds := if_neg (h.count ▸ hroom)
                  dsimp only
                  rw [hfull]
                  exact .fault fun hsafe => hroom (hsafe.2 (by simp [hsome]))

theorem parseOption_eq (opt : ConfigOption) (value : List UInt8) (s : PaxosSettings) :
    ∃ printed, parseOption opt value s =
      .ok (printed, (optionUpdate opt value).map fun update => update s) := by
  unfold parseOption optionUpdate
  cases opt.type with
  | boolean store => cases parseBoolean (some value) <;> exact ⟨_, rfl⟩
  | integer store => cases parseInteger (some value) <;> exact ⟨_, rfl⟩
  | string store => cases parseString (some value) <;> exact ⟨_, rfl⟩
  | verbosity store =>
      obtain ⟨v, hv⟩ : ∃ v, parseVerbosity (some value) = .ok v := ⟨_, rfl⟩
      rw [hv]
      cases v <;> exact ⟨_, rfl⟩

-- What the reader has taken from the lines so far.
structure ConfigReader.Holds (settings : PaxosSettings) (lines : List (List UInt8))
    (r : ConfigReader) : Prop where
  acceptors : r.config.acceptors.Holds (acceptorsOf lines)
  proposers : r.config.proposers.Holds (proposersOf lines)
  settings : r.settings = (settingsOf lines).foldl (fun s update => update s) settings

section

variable {settings : PaxosSettings} {before : List (List UInt8)} {line : List UInt8}
  {r : ConfigReader}

theorem filterMap_concat {α β : Type} (f : α → Option β) (xs : List α) (x : α) :
    (xs ++ [x]).filterMap f = xs.filterMap f ++ (f x).toList := by
  rw [List.filterMap_append]
  cases hf : f x <;> simp [hf]

-- The next line, by what it says.
theorem ConfigReader.Holds.step (h : r.Holds settings before) {d : Option Directive}
    (hd : lineDirective line = d) {r' : ConfigReader}
    (ha : r'.config.acceptors.Holds (acceptorsOf before ++ (d.bind Directive.acceptor?).toList))
    (hp : r'.config.proposers.Holds (proposersOf before ++ (d.bind Directive.proposer?).toList))
    (hs : r'.settings =
      (d.bind Directive.setting?).toList.foldl (fun s update => update s) r.settings) :
    r'.Holds settings (before ++ [line]) := by
  subst hd
  refine ⟨?_, ?_, ?_⟩
  · unfold acceptorsOf
    rw [filterMap_concat]
    exact ha
  · unfold proposersOf
    rw [filterMap_concat]
    exact hp
  · unfold settingsOf
    rw [filterMap_concat, List.foldl_append, hs, h.settings]
    rfl

theorem ConfigReader.Holds.skip (h : r.Holds settings before) (hskip : skipsLine line = true) :
    r.Holds settings (before ++ [line]) := by
  have hnone : lineDirective line = none := if_pos hskip
  exact h.step hnone (by simpa using h.acceptors) (by simpa using h.proposers) rfl

theorem parseLine_eq (line : List UInt8) (r : ConfigReader) :
    parseLine (cstring line) r =
      parseKeyword (strsep 32 (lineText line)).1 (strsep 32 (lineText line)).2 r := rfl

-- The rest of a line without a space is NULL, and every branch reads it.
theorem parseKeyword_null (key : List UInt8) (r : ConfigReader) :
    parseKeyword key none r = .error .nullPointer := by
  unfold parseKeyword
  split_ifs <;> rfl

-- What becomes of a line that is not passed over.
inductive LineRead (settings : PaxosSettings) (before : List (List UInt8)) (line : List UInt8) :
    Except Fault (List String × Option ConfigReader) → Prop where
  | fault {fault : Fault} : ¬SafeLine before line → LineRead settings before line (.error fault)
  | reject {printed : List String} : SafeLine before line → wellFormed line = false →
      LineRead settings before line (.ok (printed, none))
  | accept {printed : List String} {r : ConfigReader} : SafeLine before line →
      wellFormed line = true → r.Holds settings (before ++ [line]) →
      LineRead settings before line (.ok (printed, some r))

-- An address line, whose table is put back by `store`.
theorem LineRead.of_address {decls : List (Int × Address)} {rest : List UInt8}
    {result : Except Fault (AddressTable × Bool)} (hread : AddressRead decls rest result)
    (hsafe : SafeLine before line ↔ SafeAddress decls.length rest)
    (hwell : wellFormed line = (declaration rest).isSome) (store : AddressTable → ConfigReader)
    (hstore : ∀ d table, declaration rest = some d → table.Holds (decls ++ [d]) →
      (store table).Holds settings (before ++ [line])) :
    LineRead settings before line
      (result >>= fun t => .ok ([], if t.2 then some (store t.1) else none)) := by
  cases hread with
  | fault hbad => exact .fault fun hline => hbad (hsafe.mp hline)
  | reject hgood hnone =>
      rw [hnone] at hwell
      exact .reject (hsafe.mpr hgood) hwell
  | accept hgood hsome hnew =>
      have hnext := hstore _ _ hsome hnew
      rw [hsome] at hwell
      exact .accept (hsafe.mpr hgood) hwell hnext

-- An option line, on which nothing can go wrong.
theorem LineRead.of_option (h : r.Holds settings before) {key value : List UInt8}
    (hsafe : SafeLine before line)
    (hdir : lineDirective line = (setting key value).map Directive.setting)
    (hwell : wellFormed line = (lineDirective line).isSome) :
    LineRead settings before line
      (match lookupOption key with
      | none => .ok ([], none)
      | some opt => parseOption opt value r.settings >>= fun out =>
          .ok (out.1, out.2.map fun settings => { r with settings := settings })) := by
  unfold setting at hdir
  cases hlookup : lookupOption key with
  | none =>
      rw [hlookup] at hdir
      rw [hdir] at hwell
      exact .reject hsafe hwell
  | some opt =>
      obtain ⟨printed, he⟩ := parseOption_eq opt value r.settings
      rw [hlookup, Option.bind_some] at hdir
      dsimp only
      rw [he]
      cases hupdate : optionUpdate opt value with
      | none =>
          rw [hupdate] at hdir
          rw [hdir] at hwell
          exact .reject hsafe hwell
      | some update =>
          rw [hupdate] at hdir
          rw [hdir] at hwell
          refine .accept hsafe hwell ?_
          exact h.step hdir (by simpa [Directive.acceptor?] using h.acceptors)
            (by simpa [Directive.proposer?] using h.proposers) rfl

theorem ConfigReader.Holds.read (h : r.Holds settings before) (hskip : skipsLine line = false) :
    LineRead settings before line (parseLine (cstring line) r) := by
  have hdir : lineDirective line = directive (lineText line) := by
    unfold lineDirective
    rw [hskip]
    rfl
  have hwell : wellFormed line = (lineDirective line).isSome := by
    unfold wellFormed
    rw [hskip, hdir]
    rfl
  have hsafe : SafeLine before line ↔ ∃ rest, (strsep 32 (lineText line)).2 = some rest ∧
      if strcaseeq (strsep 32 (lineText line)).1 (bytes "a") then
        SafeAddress (acceptorsOf before).length rest
      else if strcaseeq (strsep 32 (lineText line)).1 (bytes "p") then
        SafeAddress (proposersOf before).length rest
      else True := by
    unfold SafeLine
    rw [hskip]
    simp only [Bool.false_eq_true, false_or]
  unfold directive at hdir
  rw [parseLine_eq]
  generalize strsep 32 (lineText line) = parts at hdir hsafe ⊢
  obtain ⟨key, value⟩ := parts
  cases value with
  | none =>
      rw [parseKeyword_null]
      exact .fault fun hline => by simpa using hsafe.mp hline
  | some rest =>
      dsimp only [Option.bind_some] at hdir hsafe ⊢
      simp only [Option.some.injEq, exists_eq_left'] at hsafe
      unfold parseKeyword
      split_ifs at hdir hsafe ⊢ with hacc hprop
      · refine LineRead.of_address (h.acceptors.read rest) hsafe ?_
          (fun table => { r with config := { r.config with acceptors := table } })
          fun d table hd hnew => ?_
        · rw [hwell, hdir, Option.isSome_map]
        · rw [hd] at hdir
          exact h.step hdir hnew (by simpa [Directive.proposer?] using h.proposers) rfl
      · refine LineRead.of_address (h.proposers.read rest) hsafe ?_
          (fun table => { r with config := { r.config with proposers := table } })
          fun d table hd hnew => ?_
        · rw [hwell, hdir, Option.isSome_map]
        · rw [hd] at hdir
          exact h.step hdir (by simpa [Directive.acceptor?] using h.acceptors) hnew rfl
      · exact LineRead.of_option h (hsafe.mpr trivial) hdir hwell

-- What becomes of the lines that are left.
inductive FileRead (settings : PaxosSettings) (before lines : List (List UInt8)) :
    Except Fault ReadResult → Prop where
  | fault {fault : Fault} : ¬SafeFrom before lines → FileRead settings before lines (.error fault)
  | exit {printed : List String} : SafeFrom before lines →
      (∃ line ∈ lines, wellFormed line = false) →
      FileRead settings before lines (.ok (.exit printed))
  | config {r : ConfigReader} : SafeFrom before lines →
      (∀ line ∈ lines, wellFormed line = true) → r.Holds settings (before ++ lines) →
      FileRead settings before lines (.ok (.config r))

theorem FileRead.cons {rest : List (List UInt8)} {result : Except Fault ReadResult}
    (hsafe : SafeLine before line) (hwell : wellFormed line = true)
    (h : FileRead settings (before ++ [line]) rest result) :
    FileRead settings before (line :: rest) result := by
  cases h with
  | fault hbad => exact .fault fun hall => hbad (hall.2 hwell)
  | exit hgood hill =>
      obtain ⟨other, hm, hother⟩ := hill
      exact .exit ⟨hsafe, fun _ => hgood⟩ ⟨other, List.mem_cons_of_mem line hm, hother⟩
  | config hgood hall hholds =>
      refine .config ⟨hsafe, fun _ => hgood⟩ (List.forall_mem_cons.mpr ⟨hwell, hall⟩) ?_
      rwa [List.append_assoc, List.singleton_append] at hholds

-- The loop of `read_config`, started in the middle of the file.
theorem ConfigReader.Holds.readLines (h : r.Holds settings before) (path : String)
    (linenumber : Nat) (lines : List (List UInt8)) :
    FileRead settings before lines (LibPaxos.readLines path linenumber lines r) := by
  induction lines generalizing before r linenumber with
  | nil =>
      refine .config trivial (fun line hm => absurd hm List.not_mem_nil) ?_
      rwa [List.append_nil]
  | cons line rest ih =>
      unfold LibPaxos.readLines
      split_ifs with hskip
      · have hwell : wellFormed line = true := by simp [wellFormed, hskip]
        exact .cons (.inl hskip) hwell (ih (h.skip hskip) (linenumber + 1))
      · have hread := h.read (by simpa using hskip)
        generalize parseLine (cstring line) r = result at hread ⊢
        cases hread with
        | fault hbad => exact .fault fun hall => hbad hall.1
        | reject hgood hill =>
            refine .exit ⟨hgood, fun hwell => ?_⟩ ⟨line, List.mem_cons_self, hill⟩
            rw [hill] at hwell
            cases hwell
        | accept hgood hwell hnew => exact .cons hgood hwell (ih hnew (linenumber + 1))

end

-- Each line is passed over, updates the reader, or is reported by its number before the
-- process ends.
inductive LinesHandled (path : String) :
    Nat → List (List UInt8) → ConfigReader → ReadResult → Prop where
  | done {k : Nat} {r : ConfigReader} : LinesHandled path k [] r (.config r)
  | skip {k : Nat} {line : List UInt8} {rest : List (List UInt8)} {r : ConfigReader}
      {result : ReadResult} : skipsLine line = true → LinesHandled path (k + 1) rest r result →
      LinesHandled path k (line :: rest) r result
  | update {k : Nat} {line : List UInt8} {rest : List (List UInt8)} {r r' : ConfigReader}
      {result : ReadResult} {printed : List String} : skipsLine line = false →
      parseLine (cstring line) r = .ok (printed, some r') →
      LinesHandled path (k + 1) rest r' result → LinesHandled path k (line :: rest) r result
  | report {k : Nat} {line : List UInt8} {rest : List (List UInt8)} {r : ConfigReader}
      {printed : List String} : skipsLine line = false →
      parseLine (cstring line) r = .ok (printed, none) →
      LinesHandled path k (line :: rest) r (.exit (printed ++
        [s!"Please, check line {k}", s!"Error parsing config file {path}"]))

theorem linesHandled_of_readLines {path : String} {k : Nat} {lines : List (List UInt8)}
    {r : ConfigReader} {result : ReadResult} (h : readLines path k lines r = .ok result) :
    LinesHandled path k lines r result := by
  induction lines generalizing k r with
  | nil =>
      obtain rfl := Except.ok.inj h
      exact .done
  | cons line rest ih =>
      unfold readLines at h
      split_ifs at h with hskip
      · exact .skip hskip (ih h)
      · have hnot : skipsLine line = false := by simpa using hskip
        cases hparse : parseLine (cstring line) r with
        | error fault =>
            rw [hparse] at h
            cases h
        | ok out =>
            obtain ⟨printed, next⟩ := out
            rw [hparse] at h
            cases next with
            | none =>
                obtain rfl := Except.ok.inj h
                exact .report hnot hparse
            | some r' => exact .update hnot hparse (ih h)

-- The lines are the file in pieces that fit the buffer, and every one is handled.
structure ConfigSafe (path : String) (settings : PaxosSettings) (file : List UInt8) : Prop where
  whole : (configLines file).flatten = file
  fits : ∀ line ∈ configLines file, line.length ≤ 511
  handled : ∃ result, readConfig path (some file) settings = .ok result ∧
    LinesHandled path 0 (configLines file) ⟨⟨.empty, .empty⟩, settings⟩ result

theorem ConfigReader.Holds.empty (settings : PaxosSettings) :
    ConfigReader.Holds settings [] ⟨⟨.empty, .empty⟩, settings⟩ :=
  ⟨.empty, .empty, rfl⟩

theorem readConfig_read (path : String) (settings : PaxosSettings) (file : List UInt8) :
    FileRead settings [] (configLines file) (readConfig path (some file) settings) :=
  (ConfigReader.Holds.empty settings).readLines path 0 (configLines file)

-- Every file.
theorem config_safe_iff (path : String) (settings : PaxosSettings) (file : List UInt8) :
    ConfigSafe path settings file ↔ SafeFrom [] (configLines file) := by
  have hread := readConfig_read path settings file
  constructor
  · rintro ⟨_, _, result, hresult, _⟩
    rw [hresult] at hread
    cases hread with
    | exit hsafe _ => exact hsafe
    | config hsafe _ _ => exact hsafe
  · intro hsafe
    refine ⟨flatten_fgetsLines (by decide) file, fun line hm => length_le_of_mem_fgetsLoop hm, ?_⟩
    cases hresult : readConfig path (some file) settings with
    | error fault =>
        rw [hresult] at hread
        cases hread with
        | fault hbad => exact absurd hsafe hbad
    | ok result => exact ⟨result, rfl, linesHandled_of_readLines hresult⟩

-- A line with only a space, a keyword without a value, an address of 128 bytes and an
-- eleventh acceptor.
theorem config_not_safe :
    ¬ConfigSafe "paxos.conf" {} (bytes " \n") ∧ ¬ConfigSafe "paxos.conf" {} (bytes "verbosity\n") ∧
      ¬ConfigSafe "paxos.conf" {} (bytes "a 0 " ++ List.replicate 128 97 ++ bytes " 8800\n") ∧
      ¬ConfigSafe "paxos.conf" {} (List.replicate 11 (bytes "a 0 h 1\n")).flatten := by
  have hfault (file : List UInt8) (fault : Fault)
      (he : readConfig "paxos.conf" (some file) {} = .error fault) :
      ¬ConfigSafe "paxos.conf" {} file := by
    rintro ⟨_, _, result, hresult, _⟩
    rw [he] at hresult
    cases hresult
  exact ⟨hfault _ .nullPointer rfl, hfault _ .nullPointer rfl,
    hfault _ .outOfBounds (by decide +kernel), hfault _ .outOfBounds rfl⟩

end LibPaxos
