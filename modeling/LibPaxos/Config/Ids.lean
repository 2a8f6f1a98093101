import LibPaxos.Config.Safety

namespace LibPaxos

open Text

-- The lines of the file, whatever their length: the buffer has room for all of it.
def fileLines (file : List UInt8) : List (List UInt8) := fgetsLines file.length file

-- The ids are 0 up to the number of lines, each declared once.
structure NumberedIds (decls : List (Int × Address)) : Prop where
  ids : (decls.map Prod.fst).Perm ((List.range decls.length).map Nat.cast)
  length : decls.length ≤ MAX_ADDR

-- The rules of paxos.conf.
structure FollowsRules (file : List UInt8) : Prop where
  lines : ∀ line ∈ fileLines file, wellFormed line = true
  acceptors : NumberedIds (acceptorsOf (fileLines file))
  proposers : NumberedIds (proposersOf (fileLines file))

-- Entry `k` is the address of the line that declares id `k`.
structure AddressTable.Honours (table : AddressTable) (decls : List (Int × Address)) : Prop where
  count : table.count = decls.length
  entries : ∀ (k : Nat) addr, ((k : Int), addr) ∈ decls → table.entries[k]? = some (some addr)

def IdsHonoured (path : String) (settings : PaxosSettings) (file : List UInt8) : Prop :=
  ∃ r, readConfig path (some file) settings = .ok (.config r) ∧
    r.config.acceptors.Honours (acceptorsOf (fileLines file)) ∧
    r.config.proposers.Honours (proposersOf (fileLines file))

-- The line that is read as number `k` has the address that is declared for id `k`.
structure InIdOrder (declared read : List (Int × Address)) : Prop where
  length : read.length = declared.length
  order : ∀ (k : Nat) addr, ((k : Int), addr) ∈ declared → (read.map Prod.snd)[k]? = some addr

-- The lines as `read_config` cuts them are well-formed, no address is too long for its
-- buffer, and the lines stand in the order of their ids.
structure ReadInOrder (file : List UInt8) : Prop where
  lines : ∀ line ∈ configLines file, wellFormed line = true
  short : ∀ d ∈ acceptorsOf (configLines file) ++ proposersOf (configLines file),
    d.2.addressString.length ≤ 127
  acceptors : InIdOrder (acceptorsOf (fileLines file)) (acceptorsOf (configLines file))
  proposers : InIdOrder (proposersOf (fileLines file)) (proposersOf (configLines file))

theorem addressWord_of_declaration {rest : List UInt8} {d : Int × Address}
    (h : declaration rest = some d) : addressWord rest = some d.2.addressString := by
  unfold declaration at h
  unfold addressWord
  cases hid : scanInt rest with
  | none => simp [hid] at h
  | some first =>
      cases hword : scanWord first.2 with
      | none => simp [hid, hword] at h
      | some second =>
          cases hport : scanInt second.2 with
          | none => simp [hid, hword, hport] at h
          | some third =>
              simp only [hid, hword, hport, Option.bind_some, Option.map_some,
                Option.some.injEq] at h
              rw [← h]
              simp [hword]

theorem safeAddress_iff {stored : Nat} {rest : List UInt8} {d : Int × Address}
    (h : declaration rest = some d) :
    SafeAddress stored rest ↔ d.2.addressString.length ≤ 127 ∧ stored < MAX_ADDR := by
  simp [SafeAddress, addressWord_of_declaration h, h]

section

variable {before lines : List (List UInt8)} {line : List UInt8}

theorem acceptorsOf_cons (line : List UInt8) (lines : List (List UInt8)) :
    acceptorsOf (line :: lines) =
      ((lineDirective line).bind Directive.acceptor?).toList ++ acceptorsOf lines := by
  unfold acceptorsOf
  rw [List.filterMap_cons]
  cases (lineDirective line).bind Directive.acceptor? <;> rfl

theorem proposersOf_cons (line : List UInt8) (lines : List (List UInt8)) :
    proposersOf (line :: lines) =
      ((lineDirective line).bind Directive.proposer?).toList ++ proposersOf lines := by
  unfold proposersOf
  rw [List.filterMap_cons]
  cases (lineDirective line).bind Directive.proposer? <;> rfl

-- A well-formed line is safe if its address, if it has one, fits.
theorem safeLine_iff (hwell : wellFormed line = true) :
    SafeLine before line ↔
      (∀ d ∈ (lineDirective line).bind Directive.acceptor?,
        d.2.addressString.length ≤ 127 ∧ (acceptorsOf before).length < MAX_ADDR) ∧
      ∀ d ∈ (lineDirective line).bind Directive.proposer?,
        d.2.addressString.length ≤ 127 ∧ (proposersOf before).length < MAX_ADDR := by
  unfold wellFormed at hwell
  unfold SafeLine lineDirective
  cases hskip : skipsLine line with
  | true => simp
  | false =>
      rw [hskip, Bool.false_or] at hwell
      simp only [Bool.false_eq_true, false_or, if_false]
      unfold directive at hwell ⊢
      generalize strsep 32 (lineText line) = parts at hwell ⊢
      obtain ⟨key, value⟩ := parts
      cases value with
      | none => cases hwell
      | some rest =>
          simp only [Option.bind_some, Option.some.injEq, exists_eq_left'] at hwell ⊢
          split_ifs at hwell ⊢
          · rw [Option.isSome_map] at hwell
            obtain ⟨d, hd⟩ := Option.isSome_iff_exists.mp hwell
            rw [safeAddress_iff hd, hd]
            simp [Directive.acceptor?, Directive.proposer?]
          · rw [Option.isSome_map] at hwell
            obtain ⟨d, hd⟩ := Option.isSome_iff_exists.mp hwell
            rw [safeAddress_iff hd, hd]
            simp [Directive.acceptor?, Directive.proposer?]
          · rw [Option.isSome_map] at hwell
            obtain ⟨update, hu⟩ := Option.isSome_iff_exists.mp hwell
            rw [hu]
            simp [Directive.acceptor?, Directive.proposer?]

-- Safe lines have short addresses, and short addresses for which there is room are safe.
theorem SafeFrom.short (h : SafeFrom before lines)
    (hwell : ∀ line ∈ lines, wellFormed line = true) :
    ∀ d ∈ acceptorsOf lines ++ proposersOf lines, d.2.addressString.length ≤ 127 := by
  induction lines generalizing before with
  | nil => exact fun d hm => absurd hm List.not_mem_nil
  | cons line rest ih =>
      obtain ⟨hfirst, hrest⟩ := List.forall_mem_cons.mp hwell
      obtain ⟨hline, hnext⟩ := h
      obtain ⟨hacc, hprop⟩ := (safeLine_iff hfirst).mp hline
      have htail := List.forall_mem_append.mp (ih (hnext hfirst) hrest)
      rw [acceptorsOf_cons, proposersOf_cons]
      refine List.forall_mem_append.mpr ⟨List.forall_mem_append.mpr ⟨fun d hm => ?_, htail.1⟩,
        List.forall_mem_append.mpr ⟨fun d hm => ?_, htail.2⟩⟩
      · exact (hacc d (Option.mem_toList.mp hm)).1
      · exact (hprop d (Option.mem_toList.mp hm)).1

theorem SafeFrom.of_short (hwell : ∀ line ∈ lines, wellFormed line = true)
    (hshort : ∀ d ∈ acceptorsOf lines ++ proposersOf lines, d.2.addressString.length ≤ 127)
    (hacc : (acceptorsOf (before ++ lines)).length ≤ MAX_ADDR)
    (hprop : (proposersOf (before ++ lines)).length ≤ MAX_ADDR) : SafeFrom before lines := by
  induction lines generalizing before with
  | nil => trivial
  | cons line rest ih =>
      obtain ⟨hfirst, hrest⟩ := List.forall_mem_cons.mp hwell
      rw [acceptorsOf_cons, proposersOf_cons] at hshort
      obtain ⟨ha, hp⟩ := List.forall_mem_append.mp hshort
      obtain ⟨ha, harest⟩ := List.forall_mem_append.mp ha
      obtain ⟨hp, hprest⟩ := List.forall_mem_append.mp hp
      have hroom {α : Type} (f : List UInt8 → Option α) (d : α) (hd : d ∈ f line)
          (hle : ((before ++ line :: rest).filterMap f).length ≤ MAX_ADDR) :
          (before.filterMap f).length < MAX_ADDR := by
        rw [List.filterMap_append, List.filterMap_cons_some hd, List.length_append,
          List.length_cons] at hle
        omega
      refine ⟨(safeLine_iff hfirst).mpr ⟨fun d hd => ⟨?_, ?_⟩, fun d hd => ⟨?_, ?_⟩⟩, fun _ => ?_⟩
      · exact ha d (Option.mem_toList.mpr hd)
      · exact hroom _ d hd hacc
      · exact hp d (Option.mem_toList.mpr hd)
      · exact hroom _ d hd hprop
      · rw [← List.singleton_append, ← List.append_assoc] at hacc hprop
        exact ih hrest (List.forall_mem_append.mpr ⟨harest, hprest⟩) hacc hprop

end

-- A table that holds the lines in the order of the file.
theorem AddressTable.Holds.honours_iff {table : AddressTable} {declared read : List (Int × Address)}
    (h : table.Holds read) : table.Honours declared ↔ InIdOrder declared read := by
  have hentry (k : Nat) (addr : Address) :
      table.entries[k]? = some (some addr) ↔ (read.map Prod.snd)[k]? = some addr := by
    rw [h.entries, List.getElem?_append, List.length_map, List.getElem?_map]
    split_ifs with hk
    · simp [List.getElem?_eq_getElem hk]
    · have hnone : read[k]? = none := List.getElem?_eq_none (by omega)
      simp [List.getElem?_replicate, hnone]
  constructor
  · intro hh
    exact ⟨by rw [← h.count, hh.count], fun k addr hm => (hentry k addr).mp (hh.entries k addr hm)⟩
  · intro ho
    exact ⟨by rw [h.count, ho.length], fun k addr hm => (hentry k addr).mpr (ho.order k addr hm)⟩

-- Every file that follows the rules.
theorem ids_honoured_iff (path : String) (settings : PaxosSettings) (file : List UInt8)
    (h : FollowsRules file) : IdsHonoured path settings file ↔ ReadInOrder file := by
  have hread := readConfig_read path settings file
  constructor
  · rintro ⟨r, hr, hacc, hprop⟩
    rw [hr] at hread
    cases hread with
    | config hsafe hwell hholds =>
        rw [List.nil_append] at hholds
        exact ⟨hwell, hsafe.short hwell, hholds.acceptors.honours_iff.mp hacc,
          hholds.proposers.honours_iff.mp hprop⟩
  · intro ho
    have hsafe : SafeFrom [] (configLines file) := by
      apply SafeFrom.of_short ho.lines ho.short
      · rw [List.nil_append, ho.acceptors.length]
        exact h.acceptors.length
      · rw [List.nil_append, ho.proposers.length]
        exact h.proposers.length
    cases hresult : readConfig path (some file) settings with
    | error fault =>
        rw [hresult] at hread
        cases hread with
        | fault hbad => exact absurd hsafe hbad
    | ok result =>
        rw [hresult] at hread
        cases hread with
        | exit _ hill =>
            obtain ⟨line, hm, hline⟩ := hill
            rw [ho.lines line hm] at hline
            cases hline
        | config _ _ hholds =>
            rw [List.nil_append] at hholds
            exact ⟨_, hresult, hholds.acceptors.honours_iff.mpr ho.acceptors,
              hholds.proposers.honours_iff.mpr ho.proposers⟩

def sortedFile : List UInt8 :=
  bytes "# nodes\na 0 10.0.0.1 8800\nbdb-sync yes\n\np 0 10.0.0.9 5550\na 1 10.0.0.2 8801\n"

theorem ids_honoured_iff_sorted :
    FollowsRules sortedFile ∧ IdsHonoured "paxos.conf" {} sortedFile := by
  have hlines : configLines sortedFile = fileLines sortedFile := by decide +kernel
  have hacc : acceptorsOf (fileLines sortedFile) =
      [(0, ⟨bytes "10.0.0.1", 8800⟩), (1, ⟨bytes "10.0.0.2", 8801⟩)] := by decide +kernel
  have hprop : proposersOf (fileLines sortedFile) = [(0, ⟨bytes "10.0.0.9", 5550⟩)] := by
    decide +kernel
  have hwell : ∀ line ∈ fileLines sortedFile, wellFormed line = true := by decide +kernel
  have hrules : FollowsRules sortedFile := by
    refine ⟨hwell, ?_, ?_⟩
    · rw [hacc]
      exact ⟨by decide, by decide⟩
    · rw [hprop]
      exact ⟨by decide, by decide⟩
  refine ⟨hrules, (ids_honoured_iff "paxos.conf" {} sortedFile hrules).mpr ?_⟩
  refine ⟨hlines ▸ hwell, ?_, ?_, ?_⟩
  · rw [hlines, hacc, hprop]
    decide
  · rw [hlines, hacc]
    refine ⟨rfl, fun k addr hm => ?_⟩
    simp only [List.mem_cons, Prod.mk.injEq, List.not_mem_nil, or_false] at hm
    rcases hm with ⟨hk, rfl⟩ | ⟨hk, rfl⟩
    · obtain rfl : k = 0 := by omega
      rfl
    · obtain rfl : k = 1 := by omega
      rfl
  · rw [hlines, hprop]
    refine ⟨rfl, fun k addr hm => ?_⟩
    simp only [List.mem_singleton, Prod.mk.injEq] at hm
    obtain ⟨hk, rfl⟩ := hm
    obtain rfl : k = 0 := by omega
    rfl

def swappedFile : List UInt8 := bytes "a 1 10.0.0.2 8801\na 0 10.0.0.1 8800\n"

-- The first acceptor line is stored as acceptor 0, whatever its id.
theorem ids_not_honoured :
    FollowsRules swappedFile ∧ ¬IdsHonoured "paxos.conf" {} swappedFile := by
  have hlines : configLines swappedFile = fileLines swappedFile := by decide +kernel
  have hacc : acceptorsOf (fileLines swappedFile) =
      [(1, ⟨bytes "10.0.0.2", 8801⟩), (0, ⟨bytes "10.0.0.1", 8800⟩)] := by decide +kernel
  have hprop : proposersOf (fileLines swappedFile) = [] := by decide +kernel
  refine ⟨⟨by decide +kernel, ?_, ?_⟩, ?_⟩
  · rw [hacc]
    exact ⟨by decide, by decide⟩
  · rw [hprop]
    exact ⟨by decide, by decide⟩
  · rintro ⟨r, hr, hhonours, _⟩
    have hread := readConfig_read "paxos.conf" {} swappedFile
    rw [hr] at hread
    cases hread with
    | config _ _ hholds =>
        have horder := (hholds.acceptors.honours_iff.mp hhonours).order 0 ⟨bytes "10.0.0.1", 8800⟩
        rw [List.nil_append, hlines, hacc] at horder
        revert horder
        decide

end LibPaxos
