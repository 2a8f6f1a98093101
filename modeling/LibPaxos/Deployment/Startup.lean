import LibPaxos.Config.Ids
import LibPaxos.Deployment.Safety
import LibPaxos.Learner.Delivery

namespace LibPaxos

open Wire

variable {ι κ σ γ : Type}

-- How an init function ends: with a process, with NULL, or not at all when
-- `read_config` exits.
inductive Startup (α : Type) where
  | started (process : α)
  | null (logged : List String)
  | exit (printed : List String)

-- A process starts with the defaults of `paxos_config`.
def withConfig {α : Type} (path : String) (file : Option (List UInt8))
    (init : ConfigReader → Except Fault (Startup α)) : Except Fault (Startup α) := do
  match ← readConfig path file {} with
  | .exit printed => return .exit printed
  | .config r => init r

-- The port that `htons` makes of the `int` of an address.
def listenPort (port : Int) : Nat := (port % 2 ^ 16).toNat

-- Only the port of the address is read, and an entry that was never written is zero.
-- `bind` tells which ports the host gives away.
def tcpReceiverNew (bind : Nat → Bool) (table : AddressTable) (i : Nat) : Except Fault Nat :=
  match table.entries[i]? with
  | none => .error .outOfBounds
  | some entry =>
      let port := listenPort ((entry.map Address.port).getD 0)
      if bind port then .ok port else .error .assertion

-- `make_peer` duplicates the text of the address.
def makePeer (table : AddressTable) (i : Nat) : Except Fault Address :=
  match table.entries[i]? with
  | none => .error .outOfBounds
  | some none => .error .nullPointer
  | some (some addr) => .ok addr

def peersConnect (table : AddressTable) (peers : List Address) (i : Nat) :
    Except Fault (List Address) :=
  (makePeer table i).map fun addr => peers ++ [addr]

-- The loop that connects to the acceptors.
def connectAcceptors (table : AddressTable) : Except Fault (List Address) :=
  (List.range table.count).foldlM (peersConnect table) []

-- `struct evproposer`.
structure EvproposerProcess where
  id : Nat
  port : Nat
  peers : List Address
  preexecWindow : Int
  timeout : Int
  state : Proposer

def evproposerInit (bind : Nat → Bool) (id : Int) (path : String) (file : Option (List UInt8)) :
    Except Fault (Startup EvproposerProcess) :=
  withConfig path file fun r =>
    if id < 0 ∨ MAX_N_OF_PROPOSERS ≤ id then .ok (.null [s!"Invalid proposer id: {id}"])
    else do
      let port ← tcpReceiverNew bind r.config.proposers id.toNat
      let peers ← connectAcceptors r.config.acceptors
      return .started ⟨id.toNat, port, peers, r.settings.proposerPreexecWindow,
        r.settings.proposerTimeout, proposerNew id.toNat r.config.acceptors.count⟩

-- `struct evacceptor`, with the options that its storage is opened with.
structure EvacceptorProcess (σ γ : Type) where
  port : Nat
  bdb : BdbConfig
  node : EvAcceptor σ γ

def evacceptorInit (σ γ : Type) [Storage σ] (bind : Nat → Bool) (id : Int) (path : String)
    (file : Option (List UInt8)) : Except Fault (Startup (EvacceptorProcess σ γ)) :=
  withConfig path file fun r =>
    let count := r.config.acceptors.count
    if id < 0 ∨ count ≤ id then
      .ok (.null [s!"Invalid acceptor id: {id}.", s!"Should be between 0 and {count}"])
    else do
      let port ← tcpReceiverNew bind r.config.acceptors id.toNat
      return .started ⟨port, ⟨r.settings.bdbSync, r.settings.bdbTrashFiles⟩,
        ⟨.ok (Storage.storageOpen id.toNat), carrayNew 10⟩⟩

-- `struct evlearner`.
structure EvlearnerProcess where
  peers : List Address
  node : EvLearner

def evlearnerInit (path : String) (file : Option (List UInt8)) :
    Except Fault (Startup EvlearnerProcess) :=
  withConfig path file fun r => do
    let state ← learnerNew r.settings.toPaxosConfig r.config.acceptors.count
    let peers ← connectAcceptors r.config.acceptors
    return .started ⟨peers, ⟨.ok state, []⟩⟩

section

variable {path : String} {file : Option (List UInt8)} {α : Type}

-- A process has started from a file in which every line was read.
theorem withConfig_started {init : ConfigReader → Except Fault (Startup α)} {process : α}
    (h : withConfig path file init = .ok (.started process)) :
    ∃ r lines, readConfig path file {} = .ok (.config r) ∧ r.Holds {} lines ∧
      init r = .ok (.started process) := by
  obtain ⟨result, hread, hinit⟩ := except_bind_ok h
  cases result with
  | exit printed => cases hinit
  | config r =>
      cases file with
      | none => cases hread
      | some file =>
          have hfile := readConfig_read path {} file
          rw [hread] at hfile
          cases hfile with
          | config _ _ hholds => exact ⟨r, _, hread, hholds, hinit⟩

theorem withConfig_config {r : ConfigReader} (init : ConfigReader → Except Fault (Startup α))
    (h : readConfig path file {} = .ok (.config r)) : withConfig path file init = init r := by
  rw [withConfig, h]
  rfl

end

section

variable {table : AddressTable} {decls : List (Int × Address)}

theorem AddressTable.Holds.entry (h : table.Holds decls) {i : Nat} {d : Int × Address}
    (hd : decls[i]? = some d) : table.entries[i]? = some (some d.2) := by
  have hlt : i < decls.length := (List.getElem?_eq_some_iff.mp hd).1
  rw [h.entries, List.getElem?_append_left (by simpa using hlt), List.getElem?_map, hd]
  rfl

-- Each of the acceptors is connected to, in the order of the file.
theorem AddressTable.Holds.connectAcceptors (h : table.Holds decls) :
    connectAcceptors table = .ok (decls.map Prod.snd) := by
  have hloop (k : Nat) (hk : k ≤ decls.length) :
      (List.range k).foldlM (peersConnect table) [] = .ok ((decls.take k).map Prod.snd) := by
    induction k with
    | zero => rfl
    | succ k ih =>
        have hlt : k < decls.length := by omega
        have hpeer : makePeer table k = .ok decls[k].2 := by
          rw [makePeer, h.entry (List.getElem?_eq_getElem hlt)]
        rw [List.range_succ, List.foldlM_append, ih (by omega),
          List.take_succ_eq_append_getElem hlt, List.map_append]
        simp only [List.foldlM_cons, List.foldlM_nil, peersConnect, hpeer]
        rfl
  rw [LibPaxos.connectAcceptors, h.count, hloop _ (Nat.le_refl _), List.take_length]

theorem AddressTable.Holds.tcpReceiverNew (h : table.Holds decls) {i : Nat} {d : Int × Address}
    (hd : decls[i]? = some d) (bind : Nat → Bool) :
    tcpReceiverNew bind table i =
      if bind (listenPort d.2.port) then .ok (listenPort d.2.port) else .error .assertion := by
  rw [LibPaxos.tcpReceiverNew, h.entry hd]
  rfl

end

section

variable {path : String} {file : Option (List UInt8)} {r : ConfigReader}
  {lines : List (List UInt8)} {bind : Nat → Bool} {id : Int}

-- What each kind of process is when it has started.
theorem evproposerInit_started (hread : readConfig path file {} = .ok (.config r))
    (hholds : r.Holds {} lines) {process : EvproposerProcess}
    (h : evproposerInit bind id path file = .ok (.started process)) :
    (0 ≤ id ∧ id < MAX_N_OF_PROPOSERS) ∧ ∃ port, process =
      ⟨id.toNat, port, (acceptorsOf lines).map Prod.snd, r.settings.proposerPreexecWindow,
        r.settings.proposerTimeout, proposerNew id.toNat r.config.acceptors.count⟩ := by
  rw [evproposerInit, withConfig_config _ hread] at h
  split_ifs at h with hid
  · cases h
  · obtain ⟨port, _, h⟩ := except_bind_ok h
    rw [hholds.acceptors.connectAcceptors] at h
    cases h
    exact ⟨by omega, port, rfl⟩

theorem evacceptorInit_started [Storage σ] (hread : readConfig path file {} = .ok (.config r))
    (hholds : r.Holds {} lines) {process : EvacceptorProcess σ γ}
    (h : evacceptorInit σ γ bind id path file = .ok (.started process)) :
    0 ≤ id ∧ ∃ d, (acceptorsOf lines)[id.toNat]? = some d ∧ process =
      ⟨listenPort d.2.port, ⟨r.settings.bdbSync, r.settings.bdbTrashFiles⟩,
        ⟨.ok (Storage.storageOpen id.toNat), carrayNew 10⟩⟩ := by
  rw [evacceptorInit, withConfig_config _ hread] at h
  dsimp only at h
  split_ifs at h with hid
  · cases h
  · have hlt : id.toNat < (acceptorsOf lines).length := by
      rw [← hholds.acceptors.count]
      omega
    obtain ⟨d, hd⟩ : ∃ d, (acceptorsOf lines)[id.toNat]? = some d :=
      ⟨_, List.getElem?_eq_getElem hlt⟩
    rw [hholds.acceptors.tcpReceiverNew hd] at h
    split_ifs at h with hbind
    · cases h
      exact ⟨by omega, d, hd, rfl⟩
    · cases h

-- Every acceptor of the file starts where its port is free.
theorem evacceptorInit_starts [Storage σ] (hread : readConfig path file {} = .ok (.config r))
    (hholds : r.Holds {} lines) (hid : 0 ≤ id ∧ id < r.config.acceptors.count) :
    ∃ process, evacceptorInit σ γ (fun _ => true) id path file = .ok (.started process) := by
  have hlt : id.toNat < (acceptorsOf lines).length := by
    rw [← hholds.acceptors.count]
    omega
  rw [evacceptorInit, withConfig_config _ hread]
  dsimp only
  rw [if_neg (by omega), hholds.acceptors.tcpReceiverNew (List.getElem?_eq_getElem hlt), if_pos rfl]
  exact ⟨_, rfl⟩

theorem evlearnerInit_started (hread : readConfig path file {} = .ok (.config r))
    (hholds : r.Holds {} lines) {process : EvlearnerProcess}
    (h : evlearnerInit path file = .ok (.started process)) :
    ∃ state, learnerNew r.settings.toPaxosConfig r.config.acceptors.count = .ok state ∧
      process = ⟨(acceptorsOf lines).map Prod.snd, ⟨.ok state, []⟩⟩ := by
  rw [evlearnerInit, withConfig_config _ hread] at h
  obtain ⟨state, hstate, h⟩ := except_bind_ok h
  rw [hholds.acceptors.connectAcceptors] at h
  cases h
  exact ⟨state, hstate, rfl⟩

end

-- The processes of a cluster, each of which has read the same file.
structure Launched (path : String) (file : Option (List UInt8)) (ids : ι → Int)
    (proposers : ι → EvproposerProcess) (learners : κ → EvlearnerProcess) : Prop where
  distinct : Function.Injective ids
  proposer : ∀ p, ∃ bind, evproposerInit bind (ids p) path file = .ok (.started (proposers p))
  learner : ∀ l, evlearnerInit path file = .ok (.started (learners l))

-- They are the deployment of a layout at its start: the processes are in the states in
-- which it starts, and the connections that a process numbers by their acceptors lead
-- to where these listen.
structure Deploys (σ : Type) [Storage σ] (path : String) (file : Option (List UInt8))
    (proposers : ι → EvproposerProcess) (learners : κ → EvlearnerProcess)
    (cl : Layout ι κ) : Prop where
  acceptors : cl.acceptors ≤ MAX_ADDR
  started : ∀ a : Int, (∃ bind process, evacceptorInit σ (Connection ι κ) bind a path file =
    .ok (.started process)) ↔ 0 ≤ a ∧ a < cl.acceptors
  proposer : ∀ p, (Deployment.start cl : Deployment ι κ σ).proposers p = .ok (proposers p).state ∧
    cl.id p = (proposers p).id ∧ cl.preexecWindow p = (proposers p).preexecWindow.toNat ∧
    (cl.proposerConfig p).proposerTimeout = (proposers p).timeout
  learner : ∀ l, (Deployment.start cl : Deployment ι κ σ).learners l = (learners l).node
  acceptor : ∀ bind (a : Int) process, evacceptorInit σ (Connection ι κ) bind a path file =
      .ok (.started process) →
    (Deployment.start cl : Deployment ι κ σ).acceptors a.toNat = process.node ∧
    ∃ addr, listenPort addr.port = process.port ∧
      (∀ p, (proposers p).peers[a.toNat]? = some addr) ∧
      ∀ l, (learners l).peers[a.toNat]? = some addr
  peers : (∀ p, (proposers p).peers.length = cl.acceptors) ∧
    ∀ l, (learners l).peers.length = cl.acceptors
  durable : ∀ bind a process, evacceptorInit σ (Connection ι κ) bind a path file =
    .ok (.started process) → process.bdb.bdbTrashFiles = false

-- The layout of a file.
def ConfigReader.layout (r : ConfigReader) (ids : ι → Int) (hpos : 1 ≤ r.config.acceptors.count)
    (hids : ∀ p, 0 ≤ ids p ∧ ids p < MAX_N_OF_PROPOSERS) (hinj : Function.Injective ids) :
    Layout ι κ where
  acceptors := r.config.acceptors.count
  acceptors_pos := hpos
  id p := (ids p).toNat
  id_lt p := by
    have := hids p
    omega
  id_injective p q h := hinj (by
    have hp := hids p
    have hq := hids q
    have he : (ids p).toNat = (ids q).toNat := h
    omega)
  proposerConfig _ := r.settings.toPaxosConfig
  learnerConfig _ := r.settings.toPaxosConfig
  preexecWindow _ := r.settings.proposerPreexecWindow.toNat

theorem Launched.deploys [Storage σ] {path : String} {file : Option (List UInt8)} {ids : ι → Int}
    {proposers : ι → EvproposerProcess} {learners : κ → EvlearnerProcess}
    (h : Launched path file ids proposers learners) {bind : Nat → Bool} {a : Int}
    {process : EvacceptorProcess σ (Connection ι κ)}
    (ha : evacceptorInit σ (Connection ι κ) bind a path file = .ok (.started process))
    (hkeep : process.bdb.bdbTrashFiles = false) :
    ∃ cl : Layout ι κ, Deploys σ path file proposers learners cl := by
  obtain ⟨r, lines, hread, hholds, _⟩ := withConfig_started ha
  have hcount := hholds.acceptors.count
  have hacceptor {bind : Nat → Bool} {a : Int} {process : EvacceptorProcess σ (Connection ι κ)}
      (ha : evacceptorInit σ (Connection ι κ) bind a path file = .ok (.started process)) :=
    evacceptorInit_started hread hholds ha
  have hproposer (p : ι) := (h.proposer p).elim fun _ => evproposerInit_started hread hholds
  have hlearner (l : κ) := evlearnerInit_started hread hholds (h.learner l)
  have hpos : 1 ≤ r.config.acceptors.count := by
    obtain ⟨_, d, hd, _⟩ := hacceptor ha
    have := (List.getElem?_eq_some_iff.mp hd).1
    omega
  refine ⟨r.layout ids hpos (fun p => (hproposer p).1) h.distinct, ?_, fun a => ⟨?_, fun hlt => ?_⟩,
    fun p => ?_, fun l => ?_, fun bind a process ha => ?_, ⟨fun p => ?_, fun l => ?_⟩,
    fun bind b other hb => ?_⟩
  · exact le_of_eq_of_le hcount hholds.acceptors.length_le
  · rintro ⟨bind, process, ha⟩
    obtain ⟨hge, d, hd, _⟩ := hacceptor ha
    have := (List.getElem?_eq_some_iff.mp hd).1
    refine ⟨hge, ?_⟩
    change a < r.config.acceptors.count
    omega
  · obtain ⟨process, hstart⟩ :=
      evacceptorInit_starts (σ := σ) (γ := Connection ι κ) hread hholds hlt
    exact ⟨_, process, hstart⟩
  · obtain ⟨_, port, hp⟩ := hproposer p
    rw [hp]
    exact ⟨rfl, rfl, rfl, rfl⟩
  · obtain ⟨state, hstate, hl⟩ := hlearner l
    rw [hl]
    change (⟨(learnerNew r.settings.toPaxosConfig r.config.acceptors.count).mapError .fault, []⟩ :
      EvLearner) = ⟨.ok state, []⟩
    rw [hstate]
    rfl
  · obtain ⟨_, d, hd, rfl⟩ := hacceptor ha
    have hpeer : ((acceptorsOf lines).map Prod.snd)[a.toNat]? = some d.2 := by
      rw [List.getElem?_map, hd]
      rfl
    refine ⟨rfl, d.2, rfl, fun p => ?_, fun l => ?_⟩
    · obtain ⟨_, _, hp⟩ := hproposer p
      rw [hp]
      exact hpeer
    · obtain ⟨_, _, hl⟩ := hlearner l
      rw [hl]
      exact hpeer
  · obtain ⟨_, _, hp⟩ := hproposer p
    rw [hp, List.length_map]
    exact hcount.symm
  · obtain ⟨_, _, hl⟩ := hlearner l
    rw [hl, List.length_map]
    exact hcount.symm
  · obtain ⟨_, _, _, rfl⟩ := hacceptor ha
    obtain ⟨_, _, _, rfl⟩ := hacceptor hb
    exact hkeep

variable [DecidableEq ι] [DecidableEq κ] [DurableMap σ]

-- Whatever the file says: processes that start from it and do not trash the files of
-- the acceptors are a deployment. Its learners agree in every regular run that repeats only
-- accepted records.
theorem config_file_deploys (path : String) (file : Option (List UInt8)) (ids : ι → Int)
    (proposers : ι → EvproposerProcess) (learners : κ → EvlearnerProcess)
    (h : Launched path file ids proposers learners) (bind : Nat → Bool) (a : Int)
    (process : EvacceptorProcess (Logged σ) (Connection ι κ))
    (ha : evacceptorInit (Logged σ) (Connection ι κ) bind a path file = .ok (.started process))
    (hkeep : process.bdb.bdbTrashFiles = false) :
    ∃ cl : Layout ι κ, Deploys (Logged σ) path file proposers learners cl ∧
      ∀ T : Terms, T.repeatsAccepted → ∀ d : Deployment ι κ (Logged σ),
        (deployment (Logged σ) cl).Reachable (fun d e => e.Regular T cl d) d →
        (∀ l, ∀ ack ∈ (d.learners l).delivered, T.values ack.value) ∧
          ∀ l l', ∀ ack ∈ (d.learners l).delivered, ∀ ack' ∈ (d.learners l').delivered,
            ack.iid = ack'.iid → ack.value = ack'.value := by
  obtain ⟨cl, hdeploys⟩ := h.deploys ha hkeep
  have hn : cl.acceptors ≤ 2 ^ 31 := Nat.le_trans hdeploys.acceptors (by decide)
  refine ⟨cl, hdeploys, fun T hT d hr => ?_⟩
  obtain ⟨s, hs, htracks⟩ := (deployment_simulates cl hn T).reachable hr
  exact htracks.agree hT hs

-- A file with two acceptors in the wrong order and no proposer. The proposer listens
-- on a port of the system's choice.
theorem config_file_deploys_swapped :
    ∃ (proposers : Fin 1 → EvproposerProcess) (learners : Fin 1 → EvlearnerProcess),
      Launched "paxos.conf" (some swappedFile) (fun _ : Fin 1 => 3) proposers learners ∧
      (proposers 0).port = 0 ∧
      ∃ cl : Layout (Fin 1) (Fin 1),
        Deploys (Logged BdbStorage) "paxos.conf" (some swappedFile) proposers learners cl ∧
        ∀ T : Terms, T.repeatsAccepted → ∀ d : Deployment (Fin 1) (Fin 1) (Logged BdbStorage),
          (deployment (Logged BdbStorage) cl).Reachable (fun d e => e.Regular T cl d) d →
          (∀ l, ∀ ack ∈ (d.learners l).delivered, T.values ack.value) ∧
            ∀ l l', ∀ ack ∈ (d.learners l).delivered, ∀ ack' ∈ (d.learners l').delivered,
              ack.iid = ack'.iid → ack.value = ack'.value := by
  obtain ⟨r, hread, hsettings, hcount⟩ : ∃ r, readConfig "paxos.conf" (some swappedFile) {} =
      .ok (.config r) ∧ r.settings = {} ∧ r.config.acceptors.count = 2 := ⟨_, rfl, rfl, rfl⟩
  obtain ⟨proposer, hproposer, hport⟩ : ∃ process,
      evproposerInit (fun _ => true) 3 "paxos.conf" (some swappedFile) = .ok (.started process) ∧
        process.port = 0 := ⟨_, rfl, rfl⟩
  obtain ⟨acceptor, hacceptor, hkeep⟩ : ∃ process,
      evacceptorInit (Logged BdbStorage) (Connection (Fin 1) (Fin 1)) (fun _ => true) 0
        "paxos.conf" (some swappedFile) = .ok (.started process) ∧
        process.bdb.bdbTrashFiles = false := ⟨_, rfl, rfl⟩
  obtain ⟨peers, hpeers⟩ : ∃ peers, connectAcceptors r.config.acceptors = .ok peers := by
    obtain ⟨r', lines, hread', hholds, _⟩ := withConfig_started hacceptor
    cases hread.symm.trans hread'
    exact ⟨_, hholds.acceptors.connectAcceptors⟩
  obtain ⟨state, hstate, _⟩ := learnerNew_windowed {} 2 (by decide)
  have hlearner : evlearnerInit "paxos.conf" (some swappedFile) =
      .ok (.started ⟨peers, ⟨.ok state, []⟩⟩) := by
    rw [evlearnerInit, withConfig_config _ hread, hsettings, hcount, hpeers]
    change (learnerNew {} 2 >>= _) = _
    rw [hstate]
    rfl
  have hlaunched : Launched "paxos.conf" (some swappedFile) (fun _ : Fin 1 => 3)
      (fun _ => proposer) (fun _ : Fin 1 => ⟨peers, ⟨.ok state, []⟩⟩) :=
    ⟨fun p q _ => Subsingleton.elim p q, fun _ => ⟨_, hproposer⟩, fun _ => hlearner⟩
  exact ⟨_, _, hlaunched, hport,
    config_file_deploys _ _ _ _ _ hlaunched _ 0 acceptor hacceptor hkeep⟩

end LibPaxos
