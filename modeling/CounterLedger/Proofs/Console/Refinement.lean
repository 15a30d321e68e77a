/-
The console refines the counter, from one process to the next. Each run opens the database in its
file, performs one command on a host of its own and leaves the database for the next run. What is
seen of a sequence of runs is what typed operations on a single record give, with one reservation:
the record keeps the creator in repaired form.
-/
import CounterLedger.Proofs.Console.Record
import CounterLedger.Proofs.Counter.Codec
import CounterLedger.Proofs.Counter.Refinement

namespace CounterLedger

/-! ## Paths -/

namespace Directory

/-- Where a path leads to a file or a folder, it does so whatever files there are. -/
theorem follow_ok {d : Directory} {folder : Bytes} {parts : List Bytes} {e : End}
    (h : d.follow folder parts = .ok e) (d' : Directory) : d'.follow folder parts = .ok e := by
  induction parts generalizing folder with
  | nil => exact h
  | cons part rest ih =>
    rw [follow] at h ⊢
    split_ifs at h ⊢
    · exact ih h
    · exact ih h
    · exact h

theorem target_ok {d : Directory} {path file : Bytes} (h : d.target path = .ok file) (d' : Directory) :
    d'.target path = .ok file := by
  have hresolve {e : End} (he : d.resolve path = .ok e) : d'.resolve path = .ok e := by
    unfold resolve at he ⊢
    split_ifs at he ⊢
    · exact follow_ok he d'
    · exact follow_ok he d'
  unfold target at h ⊢
  cases he : d.resolve path with
  | error why =>
    rw [he] at h
    cases h
  | ok e =>
    rw [he] at h
    rw [hresolve he]
    exact h

end Directory

namespace Console

open CommandLine
open Counter (State ExecuteMsg InstantiateMsg QueryMsg Holds Machine)

/-! ## Texts -/

theorem accepted_created (S : Bytes) (n : UInt64) :
    accepted (Machine.created ⟨S⟩ n) = utf8 "accepted method=instantiate owner=" ++ S ++ utf8 " count=" ++
      Numeral.decimal n.toNat ++ utf8 "\n" := by
  have hhead : utf8 "accepted method=instantiate owner=" = utf8 "accepted " ++ (utf8 "method" ++ (utf8 "=" ++
      (utf8 "instantiate" ++ (utf8 " " ++ (utf8 "owner" ++ utf8 "="))))) := by decide
  have hcount : utf8 " count=" = utf8 " " ++ (utf8 "count" ++ utf8 "=") := by decide
  rw [hhead, hcount]
  simp only [accepted, Machine.created, List.map_cons, List.map_nil, Bytes.join, List.append_assoc]

theorem countText_line (n : UInt64) :
    Machine.countText n ++ utf8 "\n" = utf8 "\x7b\"count\":" ++ Numeral.decimal n.toNat ++ utf8 "\x7d\n" := by
  rw [Machine.countText, List.append_assoc]
  rfl

/-! ## Transitions -/

/-- The method that a transition is accepted as. -/
def method : ExecuteMsg → Bytes
  | .increment => utf8 "increment"
  | .reset _ => utf8 "reset"

/-- The machine, given the text of a transition, makes the transition. -/
theorem advance_encode (caller : Address) (m : ExecuteMsg) (s : State) :
    match State.after caller m s with
    | .ok next => Machine.advance caller (some m.encode) s = .ok (Machine.done (method m), next)
    | .error cause => ∃ f, cause = .fault f ∧ Machine.advance caller (some m.encode) s = .error f := by
  unfold Machine.advance
  rw [show Counter.messageBytes (some m.encode) = m.encode from rfl, ExecuteMsg.decode_encode]
  cases m with
  | increment =>
    simp only [State.after]
    by_cases hmax : s.counter.toNat = 2 ^ 64 - 1
    · rw [if_pos hmax, if_pos hmax]
      exact ⟨_, rfl, rfl⟩
    · rw [if_neg hmax, if_neg hmax]
      rfl
  | reset v =>
    cases v with
    | none => exact ⟨_, rfl, rfl⟩
    | some v =>
      have howner : caller = s.owner ↔ caller.bytes = s.owner.bytes := by
        obtain ⟨b⟩ := caller
        obtain ⟨⟨b'⟩, n⟩ := s
        simp
      simp only [State.after, howner]
      by_cases h : caller.bytes = s.owner.bytes
      · rw [if_pos h, if_pos h]
        rfl
      · rw [if_neg h, if_neg h]
        exact ⟨_, rfl, rfl⟩

/-- A command on a host did what an invocation on the record does. -/
def Performed (r : Host.Called Bytes) (record : Option State) : Except Error (Bytes × Option State) → Prop
  | .ok (text, next) => r.outcome = .ok text ∧ Holds (Host.contents r.host.database) next
  | .error cause => (∃ e, r.outcome = .error e ∧ e.bare = cause) ∧ Holds (Host.contents r.host.database) record

/-- A call of the counter, as the machine makes it and the console prints it. -/
def called (action : Action) (S msg : Bytes) (record : Option State) : Except Error (Bytes × Option State) :=
  if S = [] then .error (.fault .callerMissing)
  else match Machine.next action ⟨S⟩ (some msg) record with
    | .error f => .error (.fault f)
    | .ok (res, s) => .ok (accepted res, some s)

theorem called_instantiate (S : Bytes) (n : UInt64) (record : Option State) :
    called .instantiate S (InstantiateMsg.encode ⟨n⟩) record = create S (Utf8.repair S) n record := by
  unfold called create
  by_cases hS : S = []
  · rw [if_pos hS, if_pos hS]
  · rw [if_neg hS, if_neg hS]
    cases record with
    | some s => rfl
    | none =>
      have hcreate : Machine.create ⟨S⟩ (some (InstantiateMsg.encode ⟨n⟩)) =
          .ok (Machine.created ⟨S⟩ n, ⟨⟨Utf8.repair S⟩, n⟩) := by
        unfold Machine.create
        rw [show Counter.messageBytes (some (InstantiateMsg.encode ⟨n⟩)) = InstantiateMsg.encode ⟨n⟩ from rfl,
          InstantiateMsg.decode_encode]
      simp only [Machine.next, hcreate, accepted_created]

theorem called_execute (S : Bytes) (m : ExecuteMsg) (record : Option State) :
    called .execute S m.encode record = advance S m (accepted (Machine.done (method m))) record := by
  unfold called advance
  by_cases hS : S = []
  · rw [if_pos hS, if_pos hS]
  · rw [if_neg hS, if_neg hS]
    cases record with
    | none => rfl
    | some s =>
      have hadvance := advance_encode ⟨S⟩ m s
      simp only [Machine.next]
      cases hafter : State.after ⟨S⟩ m s with
      | ok next =>
        rw [hafter] at hadvance
        rw [hadvance]
        rfl
      | error cause =>
        rw [hafter] at hadvance
        obtain ⟨f, rfl, hf⟩ := hadvance
        rw [hf]
        rfl

/-! ## Commands on a host -/

/-- A command on a host that works, whose database holds the record. -/
structure Ready (h : Host) (record : Option State) : Prop where
  works : h.Works
  service : h.service = service
  holds : Holds (Host.contents h.database) record

theorem Ready.find {h : Host} {record : Option State} (hh : Ready h record) :
    h.service.find? Counter.contractName = some Counter.contract := by
  rw [hh.service]
  exact (Counter.soleService_find Counter.contractName).trans (if_pos rfl)

theorem performed_transition {h : Host} {record : Option State} (hh : Ready h record) (action : Action) (c : Context)
    (flags : Flags) (msg : Bytes) :
    Performed (transition h action c flags msg) record (called action (flags.string senderFlag) msg record) := by
  generalize hS : flags.string senderFlag = S
  have hr : transition h action c flags msg =
      { outcome := ((h.invoke action ⟨S⟩ Counter.contractName (some msg)).outcome.map fun e =>
          accepted e.response).mapError (.within c)
        host := (h.invoke action ⟨S⟩ Counter.contractName (some msg)).host
        logs := (h.invoke action ⟨S⟩ Counter.contractName (some msg)).logs } := by
    rw [← hS]
    rfl
  rw [hr, called]
  -- an empty caller is refused by the host itself, whatever the record is
  by_cases hempty : S = []
  · rw [if_pos hempty, h.invoke_no_caller action (by simp [Address.isEmpty, hempty])]
    exact ⟨⟨_, rfl, rfl⟩, hh.holds⟩
  · rw [if_neg hempty]
    have hinvoke := Counter.host_invoke hh.works hh.find hh.holds action
      (show Address.isEmpty ⟨S⟩ = false by simp [Address.isEmpty, hempty]) (some msg)
    generalize h.invoke action ⟨S⟩ Counter.contractName (some msg) = x at hinvoke ⊢
    cases hnext : Machine.next action ⟨S⟩ (some msg) record with
    | error f =>
      rw [hnext] at hinvoke
      obtain ⟨⟨e, he, hbare⟩, hdatabase⟩ := hinvoke
      refine ⟨⟨.within c e, by rw [he]; rfl, hbare⟩, ?_⟩
      rw [hdatabase]
      exact hh.holds
    | ok answer =>
      obtain ⟨res, s⟩ := answer
      rw [hnext] at hinvoke
      obtain ⟨hres, hheld, -, -⟩ := hinvoke
      refine ⟨?_, hheld⟩
      cases ho : x.outcome with
      | ok e =>
        rw [ho] at hres
        cases hres
        rfl
      | error e =>
        rw [ho] at hres
        cases hres
      | abort r =>
        rw [ho] at hres
        cases hres

/-- A reading that ends like the machine's answer, up to contexts, is reported like it. -/
theorem performed_report {α : Type} {h : Host} {record : Option State} (hh : Ready h record) {o : Outcome α}
    {missing : Kind} {answer : State → α} (hanswer : o.mapError Error.bare =
      Machine.outcome (match record with | none => .error (.kind missing) | some s => .ok (answer s)))
    (text : α → Bytes) (c : Context) {r : Host.Called Bytes} (houtcome : r.outcome = (o.map text).mapError (.within c))
    (hdatabase : r.host.database = h.database) :
    Performed r record (report missing (fun s => text (answer s)) record) := by
  have hholds : Holds (Host.contents r.host.database) record := by
    rw [hdatabase]
    exact hh.holds
  unfold report
  cases record with
  | none =>
    cases o with
    | error e =>
      have hbare : e.bare = .ofKind missing := Outcome.error.inj hanswer
      exact ⟨⟨.within c e, houtcome, hbare⟩, hholds⟩
    | ok a => cases hanswer
    | abort reason => cases hanswer
  | some s =>
    cases o with
    | ok a =>
      have ha : a = answer s := Outcome.ok.inj hanswer
      refine ⟨?_, hholds⟩
      rw [houtcome, ha]
      rfl
    | error e => cases hanswer
    | abort reason => cases hanswer

theorem performed_count {h : Host} {record : Option State} (hh : Ready h record) (flags : Flags) :
    Performed (perform .count flags h) record (Invocation.apply Utf8.repair .count record) := by
  -- the host adds nothing to what the contract answers on the database
  have hanswer : (h.query Counter.contractName (some (QueryMsg.encode .getCount))).outcome.mapError Error.bare =
      Machine.outcome (match record with
        | none => .error (.kind .stateNotFound)
        | some s => .ok (some (Machine.countText s.counter))) := by
    rw [Host.query_works hh.works, hh.find]
    refine (Counter.run_query hh.holds _ _).trans ?_
    unfold Machine.answer
    rw [show Counter.messageBytes (some (QueryMsg.encode .getCount)) = QueryMsg.encode .getCount from rfl,
      QueryMsg.decode_encode]
    cases record <;> rfl
  have hdatabase : (perform .count flags h).host.database = h.database := by
    obtain ⟨metrics, hhost⟩ := h.query_host Counter.contractName (some (QueryMsg.encode .getCount))
    show (h.query Counter.contractName (some (QueryMsg.encode .getCount))).host.database = h.database
    rw [hhost]
  have hperformed := performed_report hh hanswer (fun b => b.getD [] ++ utf8 "\n") .queryCommand
    (r := perform .count flags h) rfl hdatabase
  simp only [Option.getD_some, countText_line] at hperformed
  exact hperformed

theorem performed_version {h : Host} {record : Option State} (hh : Ready h record) (flags : Flags) :
    Performed (perform .version flags h) record (Invocation.apply Utf8.repair .version record) := by
  have hinfo : (h.contractInfo Counter.contractName).mapError Error.bare =
      Machine.outcome (match record with
        | none => .error (.kind .versionNotFound)
        | some _ => .ok Machine.version) := by
    rw [Host.contractInfo_works hh.works]
    refine (congrArg (Outcome.mapError Error.bare) (Counter.run_version hh.holds)).trans ?_
    cases record <;> rfl
  exact performed_report hh hinfo (fun v => v.contract ++ utf8 " " ++ v.version ++ utf8 "\n") .readVersion
    (r := perform .version flags h) rfl rfl

/-- A command that is asked for does on a host what the invocation does on the record. -/
theorem performed_invocation {h : Host} {record : Option State} (hh : Ready h record) (path : Bytes) (i : Invocation) :
    Performed (perform i.task (i.flags path) h) record (i.apply Utf8.repair record) := by
  cases i with
  | instantiate S n =>
    have hword : ((Invocation.instantiate S n).flags path).word counterFlag = n.getD 0 := word_number rfl
    have hcalled := performed_transition hh .instantiate .instantiateCommand ((Invocation.instantiate S n).flags path)
      (InstantiateMsg.encode ⟨n.getD 0⟩)
    rw [show ((Invocation.instantiate S n).flags path).string senderFlag = S from rfl, called_instantiate] at hcalled
    show Performed (transition h .instantiate .instantiateCommand _ (InstantiateMsg.encode ⟨_⟩)) record _
    rw [hword]
    exact hcalled
  | increment S =>
    have hcalled := performed_transition hh .execute .executeCommand ((Invocation.increment S).flags path)
      (ExecuteMsg.encode .increment)
    rw [show ((Invocation.increment S).flags path).string senderFlag = S from rfl, called_execute] at hcalled
    exact hcalled
  | reset S v =>
    have hcalled := performed_transition hh .execute .executeCommand ((Invocation.reset S v).flags path)
      (ExecuteMsg.encode (.reset v))
    rw [show ((Invocation.reset S v).flags path).string senderFlag = S from rfl, called_execute] at hcalled
    show Performed (transition h .execute .executeCommand _ (ExecuteMsg.encode (resetMsg _))) record _
    rw [resetMsg_flags]
    exact hcalled
  | count => exact performed_count hh _
  | version => exact performed_version hh _

/-! ## Runs -/

/-- The file at a path keeps the record: it is not there yet and there is no record, or it is a
database that holds the record. -/
structure Keeps (path file : Bytes) (d : Directory) (record : Option State) : Prop where
  target : d.target path = .ok file
  content : d.get? file = none ∧ record = none ∨
    ∃ buckets, d.get? file = some (.database buckets) ∧ Holds (Host.contents { buckets }) record

/-- The database of the file is opened with the record in it. -/
theorem Keeps.open_ok {path file : Bytes} {d : Directory} {record : Option State} (h : Keeps path file d record) :
    ∃ buckets d', d.openDatabase path = .ok (file, { buckets }, d') ∧ Holds (Host.contents { buckets }) record := by
  unfold Directory.openDatabase
  rw [h.target]
  rcases h.content with ⟨hnone, rfl⟩ | ⟨buckets, hsome, hholds⟩
  · simp only [hnone]
    exact ⟨Table.empty, _, rfl, rfl, rfl, rfl⟩
  · simp only [hsome]
    exact ⟨buckets, d, rfl, hholds⟩

/-- What is seen of a run: how it ended, up to contexts, and what it printed. -/
def Ran.seen (r : Ran) : Outcome Unit × Bytes := (r.outcome.mapError Error.bare, r.printed)

/-- A run of the console in a directory: what is seen of it, and what it leaves. -/
def runIn (path : Bytes) (i : Invocation) (d : Directory) : (Outcome Unit × Bytes) × Directory :=
  ((run false d (i.args path)).seen, (run false d (i.args path)).directory)

theorem serve_seen {path file : Bytes} {d : Directory} {record : Option State} {buckets : Buckets}
    (htarget : d.target path = .ok file) (hholds : Holds (Host.contents { buckets }) record) (i : Invocation)
    (chain : Bytes) :
    let r := serve false i.task (i.flags path) chain d file { buckets }
    r.seen = (i.serve Utf8.repair record).1 ∧ Keeps path file r.directory (i.serve Utf8.repair record).2 := by
  have hready : Ready { service, chain, database := { buckets } } record := ⟨⟨rfl, rfl⟩, rfl, hholds⟩
  have hperformed := performed_invocation hready path i
  unfold serve Invocation.serve
  generalize perform i.task (i.flags path) { service, chain, database := { buckets } } = called at hperformed
  -- whatever the outcome is, the file has the database that the host leaves
  have hkeeps {next : Option State} (hnext : Holds (Host.contents called.host.database) next) :
      Keeps path file (d.store file called.host.database) next := by
    refine ⟨Directory.target_ok htarget _, .inr ⟨called.host.database.buckets, ?_, hnext⟩⟩
    rw [Directory.store, Table.get?_insert, if_pos rfl]
  cases happly : i.apply Utf8.repair record with
  | error cause =>
    rw [happly] at hperformed
    obtain ⟨⟨e, he, hbare⟩, hnext⟩ := hperformed
    simp only [he]
    refine ⟨?_, hkeeps hnext⟩
    rw [Ran.seen, ← hbare]
    rfl
  | ok answer =>
    obtain ⟨text, next⟩ := answer
    rw [happly] at hperformed
    obtain ⟨htext, hnext⟩ := hperformed
    simp only [htext, output, metrics_flags, Bool.false_eq_true, if_false, List.append_nil]
    exact ⟨rfl, hkeeps hnext⟩

/-- A run serves its invocation on the record, and leaves the next record in the file. -/
theorem run_seen {path file : Bytes} {d : Directory} {record : Option State} (h : Keeps path file d record)
    (i : Invocation) :
    (runIn path i d).1 = (i.serve Utf8.repair record).1 ∧
      Keeps path file (runIn path i d).2 (i.serve Utf8.repair record).2 := by
  obtain ⟨buckets, d', hopen, hholds⟩ := h.open_ok
  have hrun : run false d (i.args path) =
      serve false i.task (i.flags path) Host.defaultChain d' file { buckets } := by
    unfold run
    rw [dispatch_args]
    simp only [settings_flags, hopen]
  unfold runIn
  rw [hrun]
  exact serve_seen (Directory.target_ok h.target d') hholds i Host.defaultChain

/-- The runs of the console, one process after the other, are seen as the invocations on the record. -/
theorem runs_seen {path file : Bytes} {d : Directory} (hpath : d.target path = .ok file) (hnew : d.get? file = none)
    (is : List Invocation) :
    (transcript (runIn path) is d).1 = (transcript (Invocation.serve Utf8.repair) is none).1 := by
  have hstep : ∀ i ∈ is, ∀ d record, Keeps path file d record →
      (runIn path i d).1 = (i.serve Utf8.repair record).1 ∧
        Keeps path file (runIn path i d).2 (i.serve Utf8.repair record).2 := fun i _ d record h => run_seen h i
  exact (transcript_replies hstep ⟨hpath, .inl ⟨hnew, rfl⟩⟩).1

/-! ## The console and the record -/

/-- The runs of the console on a database that is not there yet, one process after the other, print
and answer what the invocations on a single record do that keeps its creator in repaired form. For a
creator that is valid UTF-8 the record keeps the creator itself, and for no other. -/
theorem console_refines_record {path file : Bytes} {d : Directory} (hpath : d.target path = .ok file)
    (hnew : d.get? file = none) :
    (∀ is, (transcript (runIn path) is d).1 = (transcript (Invocation.serve Utf8.repair) is none).1) ∧
    (∀ is, (∀ S, creator? is = some S → Utf8.isValid S = true) →
      (transcript (runIn path) is d).1 = (transcript (Invocation.serve id) is none).1) ∧
    ∀ is S, creator? is = some S →
      ((∀ rest, (transcript (runIn path) (is ++ rest) d).1 = (transcript (Invocation.serve id) (is ++ rest) none).1) ↔
        Utf8.isValid S = true) := by
  have hkept (is : List Invocation) (h : ∀ S, creator? is = some S → Utf8.isValid S = true) :
      (transcript (runIn path) is d).1 = (transcript (Invocation.serve id) is none).1 :=
    (runs_seen hpath hnew is).trans (transcript_kept fun S hS => (Utf8.repair_eq_self_iff S).2 (h S hS))
  refine ⟨runs_seen hpath hnew, hkept, fun is S hS => ⟨fun h => ?_, fun hvalid rest => hkept _ fun S' hS' => ?_⟩⟩
  · have hseen := h [.reset S (some 0)]
    rw [runs_seen hpath hnew] at hseen
    exact (Utf8.repair_eq_self_iff S).1 (kept_eq_of_reset hS hseen)
  · -- the first creator stays the first
    rw [creator?, List.findSome?_append, show is.findSome? Invocation.creator? = some S from hS] at hS'
    cases hS'
    exact hvalid

/-- A caller creates the counter, another one adds to it, cannot reset it, and reads it. -/
def sampleSession : List Invocation :=
  [.instantiate (utf8 "alice") (some 7), .increment (utf8 "bob"), .reset (utf8 "bob") (some 0), .count]

theorem console_refines_record_session :
    Directory.target Table.empty (utf8 "t.db") = .ok (utf8 "t.db") ∧
      Table.get? (Table.empty : Directory) (utf8 "t.db") = none ∧
      (transcript (runIn (utf8 "t.db")) sampleSession Table.empty).1 =
        [(.ok (), utf8 "accepted method=instantiate owner=alice count=7\n"),
          (.ok (), utf8 "accepted method=increment\n"), (.error (.ofKind .unauthorized), []),
          (.ok (), utf8 "\x7b\"count\":8\x7d\n")] := by
  have hpath : Directory.target Table.empty (utf8 "t.db") = .ok (utf8 "t.db") := by decide
  have hnew : Table.get? (Table.empty : Directory) (utf8 "t.db") = none := rfl
  refine ⟨hpath, hnew, ?_⟩
  rw [(console_refines_record hpath hnew).2.1 sampleSession (by decide)]
  rfl

/-- A creator whose address is a stray byte is refused the reset that the record would accept. -/
theorem stray_creator_refused_reset :
    let is := [.instantiate [0xff] none, .reset [0xff] (some 5)]
    let created := utf8 "accepted method=instantiate owner=" ++ [0xff] ++ utf8 " count=0\n"
    (transcript (runIn (utf8 "t.db")) is Table.empty).1 = [(.ok (), created), (.error (.ofKind .unauthorized), [])] ∧
      (transcript (Invocation.serve id) is none).1 = [(.ok (), created), (.ok (), utf8 "accepted method=reset\n")] := by
  intro is created
  have hpath : Directory.target Table.empty (utf8 "t.db") = .ok (utf8 "t.db") := by decide
  refine ⟨?_, rfl⟩
  rw [runs_seen hpath rfl]
  rfl

end Console

end CounterLedger
