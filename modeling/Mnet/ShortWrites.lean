/-
  Mnet.ShortWrites

  What `send` takes of the responses of a connection, and when the connection
  goes on.

  No caller in the server looks at the result of `mnet_send`, so the blocks of a
  connection are the same whatever `send` does with them: its answers are read
  beside the log, one for each block.  `mnet_handle_client` goes on after a
  response that was cut short as after any other.
-/

import Mnet.HeadArrival
import Mnet.LoopEnds
import Mnet.OneResponse
import Mnet.RouteParams

namespace Mnet

-- ============================================================================
-- The calls of send
-- ============================================================================

/-- What the system makes of a call of `send`: it takes a non-empty front of the
    data, of no more than `n` bytes, or fails. -/
inductive SendAnswer where
  | takes (n : Nat) (hn : 0 < n)
  | fails

/-- `mnet_send`: the bytes that are taken, and the result.  The length is
    narrowed to `int` as that of `mnet_recv` is. -/
def mnetSendCall (answer : SendAnswer) (data : Bytes) : Bytes × Int :=
  match answer with
  | .takes n _ =>
      let taken := data.take (min n (recvLength data.length))
      (taken, taken.length)
  | .fails => ([], -1)

/-- What is taken of the blocks of a response, where the first of them is the
    data of the call number `first`. -/
def takenBytes (answers : Nat → SendAnswer) : Nat → List Bytes → Bytes
  | _, [] => []
  | first, block :: blocks =>
      (mnetSendCall (answers first) block).1 ++ takenBytes answers (first + 1) blocks

/-- The call takes the whole block. -/
def TakesAll : SendAnswer → Bytes → Prop
  | .takes n _, block => block.length ≤ n ∧ block.length < 2 ^ 31
  | .fails, block => block = []

-- ============================================================================
-- Responses in a log
-- ============================================================================

def Event.isParsed : Event → Bool
  | .parsed .. => true
  | _ => false

def Event.isSend : Event → Bool
  | .send _ => true
  | _ => false

/-- The log shows that a further request was taken up. -/
def furtherRequest (log : List Event) : Bool := log.any Event.isParsed

/-- How many calls of `send` there were. -/
def sendCalls (log : List Event) : Nat := log.countP Event.isSend

/-- Blocks sent one after another: a response, an error page, or nothing; how
    many calls of `send` there were before; and whether the server went on to a
    further request. -/
structure Delivery where
  blocks : List Bytes
  first : Nat
  further : Bool
deriving DecidableEq, Repr

/-- Everything the log shows as sent, `k` calls of `send` after the start. -/
def deliveries : Nat → List Event → List Delivery
  | _, [] => []
  | k, .send _ :: log => deliveries (k + 1) log
  | k, _ :: log => ⟨sentFirst log, k, furtherRequest log⟩ :: deliveries k log

/-- `send` has taken every byte, in order, of what is followed by a further
    request, `k` calls after the start. -/
def InStepFrom (answers : Nat → SendAnswer) (k : Nat) (log : List Event) : Prop :=
  ∀ d ∈ deliveries k log, d.further = true → takenBytes answers d.first d.blocks = d.blocks.flatten

/-- The same of a whole connection. -/
def InStep (answers : Nat → SendAnswer) (log : List Event) : Prop := InStepFrom answers 0 log

-- ============================================================================
-- Passes that are answered in full
-- ============================================================================

/-- The pass accepts `req`, which asks for the connection to be kept, and
    `dispatch` makes `response` of it. -/
def KeptReply (app : MnetApp) (keepAlive : Bool) (buffer : Bytes) (conn : Conn)
    (req : ParsedRequest) (response : MnetResponse) : Prop :=
  ∃ buffer' conn₁ conn₂, readRequest app keepAlive buffer conn = (true, buffer', conn₁) ∧
    parseRequest conn₁ buffer' buffer'.length app.bodyLimit (requestTimeout app keepAlive) =
      (.ok, req, conn₂) ∧ req.keepAlive = true ∧
    response = (dispatch app (conn₂.emit (.parsed conn₁.start buffer' .ok req)).worldNow buffer' req
      (List.replicate MNET_MAX_PARAMS .null) MNET_MAX_PARAMS).1

/-- The head of another request comes behind the pass. -/
def AnotherComes (app : MnetApp) (keepAlive : Bool) (buffer : Bytes) (conn : Conn) : Prop :=
  ∃ next conn', clientStep app keepAlive buffer conn = (some next, conn') ∧
    ∃ k, HeadComes conn'.clock (conn'.nowMs + requestTimeout app true) next conn'.arrivals
      (conn'.readings + 1) k

/-- The calls of `send` that come next, beginning with the one after those made
    before the pass, each take all of the next block of its reply, if another
    request comes. -/
def ReplyTaken (answers : Nat → SendAnswer) (app : MnetApp) (keepAlive : Bool) (buffer : Bytes)
    (conn : Conn) : Prop :=
  AnotherComes app keepAlive buffer conn →
    ∀ req response, KeptReply app keepAlive buffer conn req response →
      ∀ i block, (answerBlocks app req response)[i]? = some block →
        TakesAll (answers (sendCalls conn.log + i)) block

-- ============================================================================
-- What is taken
-- ============================================================================

/-- What is taken is a front of the data. -/
theorem mnetSendCall_isPrefix (answer : SendAnswer) (data : Bytes) :
    (mnetSendCall answer data).1 <+: data := by
  cases answer with
  | takes n hn => exact List.take_prefix _ _
  | fails => exact List.nil_prefix

theorem mnetSendCall_eq_iff (answer : SendAnswer) (data : Bytes) :
    (mnetSendCall answer data).1 = data ↔ TakesAll answer data := by
  cases answer with
  | fails => exact ⟨Eq.symm, Eq.symm⟩
  | takes n hn =>
      have hle : recvLength data.length ≤ data.length := (recvLength_le data.length).1
      have hshort : recvLength data.length = data.length ↔ data.length < 2 ^ 31 := by
        constructor
        · intro heq
          by_contra hlong
          have hmod : data.length % 2 ^ 32 ≤ data.length := Nat.mod_le _ _
          rw [recvLength] at heq
          split at heq
          · omega
          · omega
        · exact recvLength_of_lt
      show data.take (min n (recvLength data.length)) = data ↔ _
      rw [List.take_eq_self_iff, TakesAll, ← hshort]
      omega

theorem length_takenBytes_le (answers : Nat → SendAnswer) (first : Nat) (blocks : List Bytes) :
    (takenBytes answers first blocks).length ≤ blocks.flatten.length := by
  induction blocks generalizing first with
  | nil => exact Nat.le_refl _
  | cons b blocks ih =>
      rw [takenBytes, List.flatten_cons, List.length_append, List.length_append]
      exact Nat.add_le_add (mnetSendCall_isPrefix _ _).length_le (ih _)

/-- All of a response is taken exactly when each call takes its block. -/
theorem takenBytes_eq_iff (answers : Nat → SendAnswer) (first : Nat) (blocks : List Bytes) :
    takenBytes answers first blocks = blocks.flatten ↔
      ∀ i block, blocks[i]? = some block → TakesAll (answers (first + i)) block := by
  induction blocks generalizing first with
  | nil => exact iff_of_true rfl nofun
  | cons b blocks ih =>
      -- what the first call leaves out the later ones cannot make up for
      have hsplit : takenBytes answers first (b :: blocks) = (b :: blocks).flatten ↔
          (mnetSendCall (answers first) b).1 = b ∧
            takenBytes answers (first + 1) blocks = blocks.flatten := by
        rw [takenBytes, List.flatten_cons]
        constructor
        · intro heq
          have hpre := mnetSendCall_isPrefix (answers first) b
          have hlen := congrArg List.length heq
          have hle := length_takenBytes_le answers (first + 1) blocks
          rw [List.length_append, List.length_append] at hlen
          have hfull : (mnetSendCall (answers first) b).1 = b :=
            hpre.eq_of_length_le (by omega)
          rw [hfull] at heq
          exact ⟨hfull, List.append_cancel_left heq⟩
        · rintro ⟨hfull, hrest⟩
          rw [hfull, hrest]
      rw [hsplit, mnetSendCall_eq_iff, ih]
      constructor
      · rintro ⟨hfirst, hrest⟩ i block hi
        cases i with
        | zero =>
            obtain rfl : b = block := Option.some.inj hi
            exact hfirst
        | succ i =>
            have h := hrest i block hi
            rwa [Nat.add_assoc, Nat.add_comm 1 i] at h
      · intro h
        refine ⟨h 0 b rfl, fun i block hi => ?_⟩
        have h' := h (i + 1) block hi
        rwa [Nat.add_assoc, Nat.add_comm 1 i]

-- ============================================================================
-- Reading a log
-- ============================================================================

theorem sendCalls_append (log log' : List Event) :
    sendCalls (log ++ log') = sendCalls log + sendCalls log' := List.countP_append

theorem sendCalls_inputs {ins : List Event} (hins : ∀ e ∈ ins, e.isInput) : sendCalls ins = 0 := by
  rw [sendCalls, List.countP_eq_zero]
  intro e he
  have h := hins e he
  cases e with
  | send bytes => exact absurd h (by simp [Event.isInput])
  | _ => exact Bool.false_ne_true

theorem sendCalls_sends (blocks : List Bytes) : sendCalls (blocks.map .send) = blocks.length := by
  rw [sendCalls, List.countP_map]
  exact List.countP_eq_length.mpr fun _ _ => rfl

theorem furtherRequest_append (log log' : List Event) :
    furtherRequest (log ++ log') = (furtherRequest log || furtherRequest log') := List.any_append

theorem furtherRequest_inputs {ins : List Event} (hins : ∀ e ∈ ins, e.isInput) :
    furtherRequest ins = false := by
  rw [furtherRequest, List.any_eq_false]
  intro e he
  have h := hins e he
  cases e with
  | parsed offset buffer code req => exact absurd h (by simp [Event.isInput])
  | _ => exact Bool.false_ne_true

theorem furtherRequest_sends (blocks : List Bytes) : furtherRequest (blocks.map .send) = false := by
  rw [furtherRequest, List.any_eq_false]
  intro e he
  obtain ⟨b, -, rfl⟩ := List.mem_map.mp he
  exact Bool.false_ne_true

theorem deliveries_sends (k : Nat) (blocks : List Bytes) (log : List Event) :
    deliveries k (blocks.map .send ++ log) = deliveries (k + blocks.length) log := by
  induction blocks generalizing k with
  | nil => rfl
  | cons b blocks ih =>
      have h := ih (k + 1)
      rw [Nat.add_assoc, Nat.add_comm 1] at h
      exact h

section

variable {answers : Nat → SendAnswer} {log : List Event}

theorem inStepFrom_cons {e : Event} (he : e.isSend = false) (k : Nat) :
    InStepFrom answers k (e :: log) ↔
      (furtherRequest log = true → takenBytes answers k (sentFirst log) = (sentFirst log).flatten) ∧
        InStepFrom answers k log := by
  have hcons : deliveries k (e :: log) =
      ⟨sentFirst log, k, furtherRequest log⟩ :: deliveries k log := by
    cases e with
    | send bytes => exact Bool.noConfusion he
    | _ => rfl
  rw [InStepFrom, hcons, List.forall_mem_cons]
  rfl

/-- Nothing is due where nothing is sent, or nothing follows. -/
theorem inStepFrom_cons_of_idle {e : Event} (he : e.isSend = false)
    (hidle : furtherRequest log = true → sentFirst log = []) (k : Nat) :
    InStepFrom answers k (e :: log) ↔ InStepFrom answers k log := by
  rw [inStepFrom_cons he, and_iff_right_iff_imp]
  intro _ hfurther
  rw [hidle hfurther]
  rfl

theorem inStepFrom_inputs {ins : List Event} (hins : ∀ e ∈ ins, e.isInput)
    (hidle : furtherRequest log = true → sentFirst log = []) (k : Nat) :
    (InStepFrom answers k (ins ++ log) ↔ InStepFrom answers k log) ∧
      (furtherRequest (ins ++ log) = true → sentFirst (ins ++ log) = []) := by
  induction ins with
  | nil => exact ⟨Iff.rfl, hidle⟩
  | cons e ins ih =>
      obtain ⟨hiff, hidle'⟩ := ih fun e he => hins e (List.mem_cons_of_mem _ he)
      have he := hins e (List.mem_cons_self ..)
      cases e with
      | recv now asked bytes =>
          exact ⟨(inStepFrom_cons_of_idle rfl hidle' k).trans hiff, fun _ => rfl⟩
      | expired => exact ⟨(inStepFrom_cons_of_idle rfl hidle' k).trans hiff, fun _ => rfl⟩
      | _ => exact absurd he (by simp [Event.isInput])

theorem inStepFrom_sends (k : Nat) (blocks : List Bytes) (log : List Event) :
    InStepFrom answers k (blocks.map .send ++ log) ↔
      InStepFrom answers (k + blocks.length) log := by
  rw [InStepFrom, deliveries_sends]
  rfl

/-- The sends at the end of a log are nothing to go on from. -/
theorem inStepFrom_last (k : Nat) (blocks : List Bytes) :
    InStepFrom answers k (blocks.map .send) := by
  rw [← List.append_nil (blocks.map Event.send), inStepFrom_sends]
  exact fun _ hd => absurd hd List.not_mem_nil

end

-- ============================================================================
-- One pass
-- ============================================================================

section

variable {app : MnetApp} {keepAlive : Bool} {buffer : Bytes} {conn conn' : Conn}

theorem KeptReply.unique {req req' : ParsedRequest} {response response' : MnetResponse}
    (h : KeptReply app keepAlive buffer conn req response)
    (h' : KeptReply app keepAlive buffer conn req' response') :
    req' = req ∧ response' = response := by
  obtain ⟨buffer₁, conn₁, conn₂, hread, hparse, -, rfl⟩ := h
  obtain ⟨buffer₁', conn₁', conn₂', hread', hparse', -, rfl⟩ := h'
  obtain ⟨-, rfl, rfl⟩ : true = true ∧ buffer₁ = buffer₁' ∧ conn₁ = conn₁' := by
    simpa using hread.symm.trans hread'
  obtain ⟨-, rfl, rfl⟩ : ParseCode.ok = .ok ∧ req = req' ∧ conn₂ = conn₂' := by
    simpa using hparse.symm.trans hparse'
  exact ⟨rfl, rfl⟩

/-- A pass that goes round again has answered a request that asks for it. -/
theorem clientStep_kept {next : Bytes}
    (hstep : clientStep app keepAlive buffer conn = (some next, conn')) :
    ∃ ins offset buffer' req response, (∀ e ∈ ins, e.isInput) ∧
      KeptReply app keepAlive buffer conn req response ∧
      conn'.log = conn.log ++ .waiting conn.nowMs :: (ins ++ .parsed offset buffer' .ok req ::
        .dispatched req response :: (answerBlocks app req response).map .send) := by
  obtain ⟨got, hread, -⟩ := readRequest_received app keepAlive buffer conn
  obtain ⟨ins, hlog, hins⟩ := hread.log
  have hbegin : (conn.beginPass buffer).log = conn.log ++ [.waiting conn.nowMs] := rfl
  rw [hbegin] at hlog
  rcases heq : readRequest app keepAlive buffer conn with ⟨ok, buffer', conn₁⟩
  rw [heq] at hlog
  cases ok with
  | false =>
      simp only [clientStep, heq] at hstep
      split at hstep
      · exact absurd (congrArg Prod.fst hstep) (by simp)
      · exact absurd (congrArg Prod.fst hstep) (by simp)
  | true =>
      rw [clientStep_of_readRequest heq] at hstep
      obtain ⟨code, req, conn₂, hparse, ⟨-, hserve⟩ | ⟨rfl, hserve⟩⟩ :=
        serveRequest_cases app conn₁ (requestTimeout app keepAlive) buffer'
      · exact absurd (congrArg Prod.fst (hserve.symm.trans hstep)) (by simp)
      obtain ⟨body, hbody⟩ := parseRequest_received conn₁ buffer' buffer'.length app.bodyLimit
        (requestTimeout app keepAlive)
      rw [hparse] at hbody
      obtain ⟨ins', hlog', hins'⟩ := hbody.log
      obtain ⟨hsome, hend⟩ := Prod.mk.inj (hserve.symm.trans hstep)
      have hkeep : req.keepAlive = true := by
        by_contra hclose
        rw [if_neg hclose] at hsome
        exact absurd hsome (by simp)
      refine ⟨ins ++ ins', conn₁.start, buffer', req, _, ?_,
        ⟨buffer', conn₁, conn₂, heq, hparse, hkeep, rfl⟩, ?_⟩
      · exact fun e he => (List.mem_append.mp he).elim (hins e) (hins' e)
      · dsimp only at hlog hlog'
        rw [← hend, serveParsed, respond_eq_sends, Conn.advance, Conn.sends, Conn.emit, Conn.emit,
          hlog', hlog]
        simp only [List.append_assoc, List.cons_append, List.nil_append]

/-- What the last pass of a connection shows. -/
theorem PassEnd.inStepFrom {answers : Nat → SendAnswer} {start : Nat} {fin : List Event}
    {more : Bool} (h : PassEnd app start fin more) (k : Nat) :
    InStepFrom answers k fin ∧ (furtherRequest fin = true → sentFirst fin = []) := by
  cases h with
  | idle blocks =>
      refine ⟨inStepFrom_last k blocks, fun hfurther => ?_⟩
      rw [furtherRequest_sends] at hfurther
      exact absurd hfurther Bool.false_ne_true
  | rejected buffer code req blocks hcode =>
      refine ⟨(inStepFrom_cons_of_idle rfl (fun hfurther => ?_) k).mpr (inStepFrom_last k blocks),
        fun _ => rfl⟩
      rw [furtherRequest_sends] at hfurther
      exact absurd hfurther Bool.false_ne_true
  | answered buffer req response =>
      refine ⟨(inStepFrom_cons_of_idle rfl (fun _ => rfl) k).mpr
        ((inStepFrom_cons_of_idle rfl (fun hfurther => ?_) k).mpr (inStepFrom_last k _)),
        fun _ => rfl⟩
      rw [furtherRequest_sends] at hfurther
      exact absurd hfurther Bool.false_ne_true

/-- A pass takes up a request exactly when its head comes. -/
theorem furtherRequest_clientStep {es : List Event}
    (hlog : (clientStep app keepAlive buffer conn).2.log = conn.log ++ es) :
    furtherRequest es = true ↔
      ∃ k, HeadComes conn.clock (conn.nowMs + requestTimeout app keepAlive) buffer conn.arrivals
        (conn.readings + 1) k := by
  obtain ⟨got, hread, -⟩ := readRequest_received app keepAlive buffer conn
  obtain ⟨ins, hins, hinput⟩ := hread.log
  have hbegin : (conn.beginPass buffer).log = conn.log ++ [.waiting conn.nowMs] := rfl
  rw [hbegin] at hins
  have hsilent : furtherRequest ins = false := furtherRequest_inputs hinput
  rcases heq : readRequest app keepAlive buffer conn with ⟨ok, buffer', conn₁⟩
  rw [heq] at hins
  dsimp only at hins
  cases ok with
  | false =>
      have hnone : ¬ ∃ k, HeadComes conn.clock (conn.nowMs + requestTimeout app keepAlive) buffer
          conn.arrivals (conn.readings + 1) k := by
        rintro ⟨k, hk⟩
        obtain ⟨conn₂, hread', -⟩ := readRequest_of_headComes hk
        exact absurd (congrArg Prod.fst (heq.symm.trans hread')) Bool.false_ne_true
      refine iff_of_false ?_ hnone
      simp only [clientStep, heq] at hlog
      split at hlog
      · rw [sendSimpleError_eq_sends, Conn.sends, hins, List.append_assoc, List.append_assoc,
          List.append_cancel_left_eq] at hlog
        rw [← hlog, ← List.append_assoc, furtherRequest_append, furtherRequest_sends]
        show ¬ (furtherRequest ins || false) = true
        rw [hsilent]
        exact Bool.false_ne_true
      · rw [hins, List.append_assoc, List.append_cancel_left_eq] at hlog
        rw [← hlog]
        show ¬ furtherRequest ins = true
        rw [hsilent]
        exact Bool.false_ne_true
  | true =>
      refine iff_of_true ?_ (exists_headComes (by rw [heq]))
      rw [clientStep_of_readRequest heq] at hlog
      obtain ⟨body, hbody⟩ := parseRequest_received conn₁ buffer' buffer'.length app.bodyLimit
        (requestTimeout app keepAlive)
      obtain ⟨ins', hins', -⟩ := hbody.log
      obtain ⟨code, req, conn₂, hparse, hcases⟩ :=
        serveRequest_cases app conn₁ (requestTimeout app keepAlive) buffer'
      rw [hparse] at hins'
      -- whatever the answer, the parse is on the log before it
      have hparsed : ∃ fin, (serveRequest app conn₁ (requestTimeout app keepAlive) buffer').2.log =
          conn₂.log ++ .parsed conn₁.start buffer' code req :: fin := by
        obtain ⟨-, hserve⟩ | ⟨-, hserve⟩ := hcases
        · obtain ⟨blocks, hblocks⟩ := rejectRequest_eq_sends
            (conn₂.emit (.parsed conn₁.start buffer' code req)) code
          exact ⟨_, by rw [hserve, hblocks, Conn.sends, Conn.emit, List.append_assoc]; rfl⟩
        · obtain ⟨response, hserved⟩ := serveParsed_eq app
            (conn₂.emit (.parsed conn₁.start buffer' code req)) buffer' req
          exact ⟨_, by rw [hserve, Conn.advance, hserved, Conn.emit, List.append_assoc]; rfl⟩
      obtain ⟨fin, hfin⟩ := hparsed
      dsimp only at hins'
      rw [hfin, hins', hins] at hlog
      simp only [List.append_assoc, List.append_cancel_left_eq] at hlog
      rw [← hlog, furtherRequest_append, furtherRequest_append, furtherRequest_append]
      simp [furtherRequest, Event.isParsed]

end

-- ============================================================================
-- Whole connections
-- ============================================================================

/-- From some pass on, the connection stays in step exactly when the reply of
    each pass to come is taken. -/
theorem handleLoop_inStep (answers : Nat → SendAnswer) (app : MnetApp) (keepAlive : Bool)
    (buffer : Bytes) (conn : Conn) :
    ∃ log, (handleLoop app keepAlive buffer conn).log = conn.log ++ log ∧
      StartsWaiting log ∧
      (furtherRequest log = true ↔
        ∃ k, HeadComes conn.clock (conn.nowMs + requestTimeout app keepAlive) buffer
          conn.arrivals (conn.readings + 1) k) ∧
      (InStepFrom answers (sendCalls conn.log) log ↔
        ∀ keepAlive' buffer' conn', PassOf app keepAlive buffer conn keepAlive' buffer' conn' →
          ReplyTaken answers app keepAlive' buffer' conn') := by
  fun_induction handleLoop app keepAlive buffer conn with
  | case1 keepAlive buffer conn conn' hstep =>
      obtain ⟨ins, fin, hlog, hins, hfin⟩ := clientStep_log app keepAlive buffer conn
      have hfurther := furtherRequest_clientStep hlog
      rw [hstep] at hlog
      obtain ⟨hend, hidle⟩ := hfin.inStepFrom (sendCalls conn.log)
      obtain ⟨hiff, hidle'⟩ := inStepFrom_inputs hins hidle (sendCalls conn.log)
      refine ⟨_, hlog, .inr ⟨_, _, rfl⟩, hfurther, ?_⟩
      refine iff_of_true ((inStepFrom_cons_of_idle rfl hidle' _).mpr (hiff.mpr hend)) ?_
      rintro keepAlive' buffer' conn'' hpass
      obtain ⟨rfl, rfl, rfl⟩ | ⟨next, mid, hstep', -⟩ := passOf_iff.mp hpass
      · rintro ⟨next, mid, hstep', -⟩
        exact absurd (congrArg Prod.fst (hstep.symm.trans hstep')) (by simp)
      · exact absurd (congrArg Prod.fst (hstep.symm.trans hstep')) (by simp)
  | case2 keepAlive buffer conn next conn' hstep ih =>
      obtain ⟨ins, offset, buffer₁, req, response, hins, hreply, hlog⟩ := clientStep_kept hstep
      have hfurther := @furtherRequest_clientStep app keepAlive buffer conn
      rw [hstep] at hfurther
      have hparsed := (hfurther hlog).mp (by simp [furtherRequest, Event.isParsed])
      obtain ⟨rest, hrest, hwaiting, hnext, hinStep⟩ := ih
      have hcalls : sendCalls conn'.log =
          sendCalls conn.log + (answerBlocks app req response).length := by
        rw [hlog, sendCalls_append]
        show _ + sendCalls (ins ++ _) = _
        rw [sendCalls_append, sendCalls_inputs hins, Nat.zero_add]
        show _ + sendCalls ((answerBlocks app req response).map .send) = _
        rw [sendCalls_sends]
      have hsent : sentFirst ((answerBlocks app req response).map .send ++ rest) =
          answerBlocks app req response := by
        rw [sentFirst_sends, hwaiting.sentFirst, List.append_nil]
      have hmore : furtherRequest ((answerBlocks app req response).map .send ++ rest) =
          furtherRequest rest := by
        rw [furtherRequest_append, furtherRequest_sends, Bool.false_or]
      refine ⟨.waiting conn.nowMs :: (ins ++ .parsed offset buffer₁ .ok req ::
        .dispatched req response :: ((answerBlocks app req response).map .send ++ rest)), ?_,
        .inr ⟨_, _, rfl⟩, iff_of_true ?_ hparsed, ?_⟩
      · rw [hrest, hlog]
        simp only [List.append_assoc, List.cons_append]
      · simp [furtherRequest, Event.isParsed]
      obtain ⟨hinputs, hidle⟩ := @inStepFrom_inputs answers
        (.parsed offset buffer₁ .ok req :: .dispatched req response ::
          ((answerBlocks app req response).map .send ++ rest)) ins hins (fun _ => rfl)
        (sendCalls conn.log)
      rw [inStepFrom_cons_of_idle rfl hidle, hinputs, inStepFrom_cons_of_idle rfl fun _ => rfl,
        inStepFrom_cons rfl, hsent, hmore, inStepFrom_sends, ← hcalls, hinStep, takenBytes_eq_iff,
        hnext]
      constructor
      · rintro ⟨hhere, hlater⟩ keepAlive' buffer' conn'' hpass
        obtain ⟨rfl, rfl, rfl⟩ | ⟨next', mid, hstep', hpass'⟩ := passOf_iff.mp hpass
        · rintro ⟨next', mid, hstep', hcomes⟩ req' response' hreply'
          obtain ⟨rfl, rfl⟩ := hreply.unique hreply'
          obtain ⟨rfl, rfl⟩ : next = next' ∧ conn' = mid := by simpa [hstep] using hstep'
          exact hhere hcomes
        · obtain ⟨rfl, rfl⟩ : next = next' ∧ conn' = mid := by simpa [hstep] using hstep'
          exact hlater _ _ _ hpass'
      · intro h
        exact ⟨fun hcomes => h _ _ _ (.here ..) ⟨next, conn', hstep, hcomes⟩ req response hreply,
          fun _ _ _ hpass => h _ _ _ (.later hstep hpass)⟩

/-- On every connection, whatever `send` makes of its calls: every byte of a
    response is taken before a further request is taken up exactly when in each
    pass, if another request comes behind it, the calls for its reply take all
    of their blocks. -/
theorem inStep_iff_replyTaken (app : MnetApp) (arrivals : List Arrival) (clock : Nat → Int)
    (world : Nat → World) (answers : Nat → SendAnswer) :
    InStep answers (mnetHandleClient app (.opened arrivals clock world)).log ↔
      ∀ keepAlive buffer conn,
        PassOf app false [] (.opened arrivals clock world) keepAlive buffer conn →
          ReplyTaken answers app keepAlive buffer conn := by
  obtain ⟨log, hlog, -, -, hiff⟩ :=
    handleLoop_inStep answers app false [] (.opened arrivals clock world)
  have hlog' : (mnetHandleClient app (.opened arrivals clock world)).log = log := hlog
  rw [hlog']
  exact hiff

/-- An application with one route. -/
def plainApp : MnetApp :=
  { routes := [registeredRoute .get (ascii "/") fun _ _ => mnetText (some (ascii "hello"))] }

/-- The first `send` takes one byte. -/
def oneByteFirst : Nat → SendAnswer
  | 0 => .takes 1 (by decide)
  | _ => .takes 65536 (by decide)

/-- Of two requests on a connection the second is served although one byte of
    the first response was taken. -/
theorem not_inStep_of_oneByteFirst :
    ¬ ∀ (app : MnetApp) (arrivals : List Arrival) (clock : Nat → Int) (world : Nat → World)
      (answers : Nat → SendAnswer),
      InStep answers (mnetHandleClient app (.opened arrivals clock world)).log := by
  intro h
  have hrun := h plainApp twoRequests (fun _ => 0) (fun _ => {}) oneByteFirst
  revert hrun
  unfold InStep InStepFrom
  decide +kernel

end Mnet
