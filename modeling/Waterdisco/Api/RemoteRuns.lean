import Waterdisco.Api.RemoteConnections

/-!
# Runs of the remote API's worker

    every event keeps the invariant, and leaves closed connections as they are  (step_inv)
    the loop of `processInput` ends                                             (processInput_ends)
    so every run is safe                                                        (worker_safe)
-/

namespace Waterdisco.Remote

open List Function Worker Connection

variable {Addr Body : Type}

section
variable {env : Env Addr Body} {w w' : Worker Addr Body}

/-! ## Closing -/

theorem closeOne_spec (p : Connection Addr → Bool) (hcore : Core env w) (i : Nat) :
    let w' :=
      match w.connections[i]? with
      | some c => if p c then w.closeConnection i else w
      | none => w
    Core env w' ∧ ClosedStay w w' ∧ w'.config = w.config ∧ w'.localAddress = w.localAddress ∧
      w'.connections.length = w.connections.length ∧ (∀ j, j ≠ i → w'.connections[j]? = w.connections[j]?) ∧
      ∀ c, w'.connections[i]? = some c → c.closed = false → p c = false := by
  split
  · rename_i c hc
    split
    · rcases close_cases hcore i with ⟨hsame, hclosed⟩ | ⟨c', hc', hopen, hmoves⟩
      · rw [hsame]
        exact ⟨hcore, .refl w, rfl, rfl, rfl, fun _ _ => rfl, fun d hd hopen => absurd (hclosed d hd) (by simp [hopen])⟩
      refine ⟨hmoves.core hcore hc' hopen, hmoves.put.closedStay hc' hopen, hmoves.put.config, hmoves.put.localAddress,
        by rw [hmoves.put.connections, length_set],
        fun j hj => by rw [hmoves.put.connections, getElem?_set_ne hj.symm], ?_⟩
      intro d hd hdopen
      rw [hmoves.put.getElem? hc'] at hd
      cases hd
      cases hdopen
    · rename_i hp
      refine ⟨hcore, .refl w, rfl, rfl, rfl, fun _ _ => rfl, fun d hd _ => ?_⟩
      rw [hc] at hd
      cases hd
      simpa using hp
  · rename_i hnone
    refine ⟨hcore, .refl w, rfl, rfl, rfl, fun _ _ => rfl, fun d hd => ?_⟩
    rw [hnone] at hd
    cases hd

theorem closeEach_core (p : Connection Addr → Bool) (hcore : Core env w) :
    Core env (w.closeEach p) ∧ ClosedStay w (w.closeEach p) ∧ (w.closeEach p).config = w.config ∧
      (w.closeEach p).localAddress = w.localAddress ∧
        (w.closeEach p).Each fun _ c => c.closed = false → p c = false := by
  have hspec (n : Nat) : ∀ v, v = (range n).foldl (fun (w : Worker Addr Body) i =>
      match w.connections[i]? with
      | some c => if p c then w.closeConnection i else w
      | none => w) w → Core env v ∧ ClosedStay w v ∧ v.config = w.config ∧ v.localAddress = w.localAddress ∧
        v.connections.length = w.connections.length ∧ v.Each fun j c => j < n → c.closed = false → p c = false := by
    induction n with
    | zero =>
      rintro v rfl
      exact ⟨hcore, .refl _, rfl, rfl, rfl, fun j c _ hj => absurd hj (Nat.not_lt_zero j)⟩
    | succ n ih =>
      rintro v rfl
      rw [range_succ, foldl_append, foldl_cons, foldl_nil]
      obtain ⟨hv, hstay, hconfig, hlocal, hlen, hdone⟩ := ih _ rfl
      obtain ⟨hv', hstay', hconfig', hlocal', hlen', hother, hn⟩ := closeOne_spec p hv n
      refine ⟨hv', hstay.trans hstay', hconfig'.trans hconfig, hlocal'.trans hlocal, hlen'.trans hlen, ?_⟩
      intro j c hc hj hopen
      by_cases hjn : j = n
      · subst hjn
        exact hn c hc hopen
      · exact hdone j c (by rwa [← hother j hjn]) (by omega) hopen
  obtain ⟨hend, hstay, hconfig, hlocal, hlen, hdone⟩ := hspec w.connections.length _ rfl
  refine ⟨hend, hstay, hconfig, hlocal, fun j c hc => hdone j c hc ?_⟩
  rw [← hlen]
  exact (List.getElem?_eq_some_iff.mp hc).1

theorem closeAll_core (hcore : Core env w) :
    Core env w.closeAll ∧ ClosedStay w w.closeAll ∧ w.closeAll.Each fun _ c => c.closed = true := by
  obtain ⟨hend, hstay, _, _, hdone⟩ := closeEach_core (fun _ => true) hcore
  refine ⟨hend, hstay, ?_⟩
  intro j c hc
  cases hopen : c.closed with
  | true => rfl
  | false => exact absurd (hdone j c hc hopen) (by decide)

/-- The parts of the worker that its connections are about. -/
def Worker.parts (w : Worker Addr Body) := (w.connections, w.perPeer, w.exchanges, w.mailbox, w.given)

theorem Core.congr (h : Core env w) (hparts : w'.parts = w.parts) : Core env w' := by
  simp only [parts, Prod.mk.injEq] at hparts
  obtain ⟨hconnections, hperPeer, hexchanges, hmailbox, hgiven⟩ := hparts
  constructor
  · rw [Each, hconnections, hgiven]
    exact h.conn
  · rw [hconnections, hperPeer]
    exact h.perPeer
  · rw [hmailbox, hgiven]
    exact h.mail
  · rw [hgiven]
    exact h.given
  · rw [hgiven, hexchanges]
    exact h.answered
  · rw [hexchanges]
    exact h.exchanges
  · rw [hexchanges, hconnections]
    exact h.handed

theorem stopListening_parts (w : Worker Addr Body) : w.stopListening.parts = w.parts := by
  unfold stopListening
  split
  · rfl
  · rfl

end

section
variable [DecidableEq Addr] {env : Env Addr Body} {w w' : Worker Addr Body} {i : Nat} {c : Connection Addr}

/-! ## The loop and the other events -/

theorem round_inv (hinv : Inv env w) (hc : w.connections[i]? = some c) :
    Inv env (w.inputRound env i c).1 ∧ ClosedStay w (w.inputRound env i c).1 := by
  rcases round_moves hinv.core hc with hsame | ⟨hopen, c', handed, hmoves⟩
  · rw [hsame]
    exact ⟨hinv, .refl w⟩
  · exact hmoves.inv hinv hc hopen

theorem rounds_inv (rounds : Nat) (hinv : Inv env w) (hend : Worker.processRounds env rounds w i = some w') :
    Goes env w w' := by
  induction rounds generalizing w with
  | zero => cases hend
  | succ rounds ih =>
    unfold processRounds at hend
    split at hend
    · cases hend
      exact ⟨hinv, .refl _⟩
    rename_i c hc
    obtain ⟨hnext, hstay⟩ := round_inv hinv hc
    split at hend
    · rename_i v heq
      rw [heq] at hnext hstay
      obtain ⟨hend, hstay'⟩ := ih hnext hend
      exact ⟨hend, hstay.trans hstay'⟩
    · rename_i v heq
      cases hend
      rw [heq] at hnext hstay
      exact ⟨hnext, hstay⟩

theorem processInput_inv (hinv : Inv env w) (i : Nat) :
    Goes env w (w.processInput env i) := by
  unfold processInput
  split
  · exact ⟨hinv, .refl w⟩
  rename_i c hc
  cases hend : Worker.processRounds env (2 * c.input.length + 2) w i with
  | none => exact ⟨hinv, .refl w⟩
  | some w' => exact rounds_inv _ hinv hend

theorem then_processInput (h : Goes env w w') (i : Nat) :
    Goes env w (w'.processInput env i) := by
  obtain ⟨hnext, hstay⟩ := processInput_inv h.1 i
  exact ⟨hnext, h.2.trans hstay⟩

variable (hinv : Inv env w)

include hinv

theorem closeConnection_inv (i : Nat) :
    Goes env w (w.closeConnection i) := by
  rcases close_cases hinv.core i with ⟨hsame, _⟩ | ⟨c, hc, hopen, hmoves⟩
  · rw [hsame]
    exact ⟨hinv, .refl w⟩
  · exact hmoves.inv hinv hc hopen

theorem socket_inv (hc : w.connections[i]? = some c) (hopen : c.closed = false) {input arrived : Bytes}
    (unwritten : Nat) (hframed : Framed { c with input := input, arrived := arrived, unwritten := unwritten }) :
    Inv env (w.setConnection i { c with input := input, arrived := arrived, unwritten := unwritten }) ∧
      ClosedStay w (w.setConnection i { c with input := input, arrived := arrived, unwritten := unwritten }) := by
  obtain ⟨hok, hlast, -⟩ := hinv.core.conn i c hc
  have hmoves : Moves env w (w.setConnection i { c with input := input, arrived := arrived, unwritten := unwritten }) i c
      { c with input := input, arrived := arrived, unwritten := unwritten } [] :=
    ⟨put_set w i rfl rfl hopen, hok.reading c.header c.body input arrived c.length unwritten, hlast, fun _ => hframed,
      ⟨[], (append_nil _).symm⟩, .inl ⟨rfl, rfl⟩⟩
  exact hmoves.inv hinv hc hopen

theorem deliver_inv {answer : Answer Body} (hgiven : answer ∈ w.given) :
    Goes env w (w.deliver env answer) := by
  unfold deliver
  split
  · exact ⟨hinv, .refl w⟩
  rename_i c hc
  split
  · exact ⟨hinv, .refl w⟩
  rename_i hno
  simp only [not_or, not_not, Bool.not_eq_true] at hno
  obtain ⟨hopen, hphase, hnumber⟩ := hno
  have hmem : (⟨answer.connection, c.exchanges, answer.response⟩ : Answer Body) ∈ w.given := by
    rw [hnumber]
    exact hgiven
  obtain ⟨c', hmoves⟩ := moves_send hinv.core hc hopen hphase hmem
  exact then_processInput (hmoves.inv hinv hc hopen) _

theorem append_inv (hnew : ConnOk env w.given w.connections.length c) (hframed : Framed c) (hphase : c.phase ≠ .pending)
    (hopen : c.closed = false) (hallowed : w.isAllowed env c.address = true) :
    Inv env { w with
        connections := w.connections ++ [c], perPeer := update w.perPeer c.peer (w.perPeer c.peer + 1) } ∧
      ClosedStay w { w with
        connections := w.connections ++ [c], perPeer := update w.perPeer c.peer (w.perPeer c.peer + 1) } := by
  have hcases (j : Nat) (d : Connection Addr) (hd : (w.connections ++ [c])[j]? = some d) :
      w.connections[j]? = some d ∨ (j = w.connections.length ∧ d = c) := by
    by_cases hj : j < w.connections.length
    · rw [getElem?_append_left hj] at hd
      exact .inl hd
    rw [getElem?_append_right (by omega)] at hd
    have hlt := (List.getElem?_eq_some_iff.mp hd).1
    simp only [length_singleton] at hlt
    have hjeq : j = w.connections.length := by omega
    rw [hjeq, Nat.sub_self] at hd
    cases hd
    exact .inr ⟨hjeq, rfl⟩
  have hstay (j : Nat) (d : Connection Addr) (hd : w.connections[j]? = some d) :
    (w.connections ++ [c])[j]? = some d := by
    rw [List.getElem?_append_left (List.getElem?_eq_some_iff.mp hd).1]
    exact hd
  refine ⟨⟨⟨?_, ?_, hinv.core.mail, hinv.core.given, hinv.core.answered, hinv.core.exchanges, ?_⟩, ?_⟩,
    fun j d hd _ => hstay j d hd⟩
  · intro j d hd
    rcases hcases j d hd with hd | ⟨rfl, rfl⟩
    · exact hinv.core.conn j d hd
    · exact ⟨hnew, fun hp => absurd hp hphase, fun _ => hframed⟩
  · intro p
    have hcount := hinv.core.perPeer p
    show update w.perPeer c.peer (w.perPeer c.peer + 1) p = (w.connections ++ [c]).countP _
    rw [countP_append, countP_singleton, hopen, ← hcount]
    by_cases hp : c.peer = p
    · rw [hp, update_self]
      simp
    · rw [update_of_ne (fun heq => hp heq.symm)]
      simp [hp]
  · intro x hx
    obtain ⟨d, hd, hle⟩ := hinv.core.handed x hx
    exact ⟨d, hstay _ d hd, hle⟩
  · intro j d hd hdopen
    rcases hcases j d hd with hd | ⟨rfl, rfl⟩
    · exact hinv.allowed j d hd hdopen
    · exact hallowed

theorem admitSocket_inv (socketPeer : Addr) (random : Bytes) :
    Goes env w (w.admitSocket env socketPeer random) := by
  unfold admitSocket
  dsimp only
  split
  · exact ⟨hinv, .refl w⟩
  split
  · exact ⟨hinv, .refl w⟩
  rename_i hallowed
  split
  · exact ⟨hinv, .refl w⟩
  · refine then_processInput (append_inv hinv (connOk_new _ _ _ _) (framed_new _ _ _ _) (by simp) rfl ?_) _
    simpa using hallowed

theorem answer_inv (k : Nat) (response : Response Body) :
    Goes env w (w.answer k response) := by
  unfold answer
  split
  · exact ⟨hinv, .refl w⟩
  rename_i x hx
  split
  · exact ⟨hinv, .refl w⟩
  rename_i hnew
  have hnew : x.answered = false := by simpa using hnew
  have hmem : x ∈ w.exchanges := mem_of_getElem? hx
  have hkeys : (w.exchanges.set k { x with answered := true }).map (fun x => (x.connection, x.number)) =
      w.exchanges.map (fun x => (x.connection, x.number)) := by
    refine ext_getElem? fun j => ?_
    rw [getElem?_map, getElem?_map]
    by_cases hj : k = j
    · subst hj
      rw [List.getElem?_set_self (List.getElem?_eq_some_iff.mp hx).1, hx]
      rfl
    · rw [getElem?_set_ne hj]
  have hself : { x with answered := true } ∈ w.exchanges.set k { x with answered := true } :=
    List.mem_set (List.getElem?_eq_some_iff.mp hx).1 _
  -- the other exchanges are where they were
  have hother (y : Exchange Body) (hy : y ∈ w.exchanges) (hanswered : y.answered = true) :
      y ∈ w.exchanges.set k { x with answered := true } := by
    obtain ⟨j, hj⟩ := getElem?_of_mem hy
    have hne : k ≠ j := by
      rintro rfl
      rw [hx] at hj
      cases hj
      rw [hnew] at hanswered
      cases hanswered
    exact mem_of_getElem? (by rw [getElem?_set_ne hne]; exact hj)
  -- nobody has answered this one yet
  have hfresh : (x.connection, x.number) ∉ w.given.map (fun a => (a.connection, a.number)) := by
    intro hkey
    obtain ⟨a, ha, hak⟩ := mem_map.mp hkey
    obtain ⟨y, hy, hyc, hyn, hya⟩ := hinv.core.answered a ha
    have heq : y = x := by
      refine inj_on_of_nodup_map hinv.core.exchanges hy hmem ?_
      rw [← hak, hyc, hyn]
    rw [heq, hnew] at hya
    cases hya
  refine ⟨⟨⟨?_, hinv.core.perPeer, ?_, ?_, ?_, ?_, ?_⟩, hinv.allowed⟩, fun _ _ hd _ => hd⟩
  · intro i c hc
    obtain ⟨hok, hrest⟩ := hinv.core.conn i c hc
    exact ⟨hok.mono _, hrest⟩
  · intro a ha
    rcases mem_append.mp ha with ha | ha
    · exact mem_append_left _ (hinv.core.mail a ha)
    · exact mem_append_right _ ha
  · show ((w.given ++ [(⟨x.connection, x.number, response⟩ : Answer Body)]).map _).Nodup
    rw [map_append, nodup_append]
    refine ⟨hinv.core.given, by simp, ?_⟩
    intro key hkey key' hkey' heq
    rw [map_singleton, mem_singleton] at hkey'
    rw [heq, hkey'] at hkey
    exact hfresh hkey
  · intro a ha
    rcases mem_append.mp ha with ha | ha
    · obtain ⟨y, hy, hyc, hyn, hya⟩ := hinv.core.answered a ha
      exact ⟨y, hother y hy hya, hyc, hyn, hya⟩
    rw [mem_singleton] at ha
    subst ha
    exact ⟨_, hself, rfl, rfl, rfl⟩
  · show ((w.exchanges.set k { x with answered := true }).map _).Nodup
    rw [hkeys]
    exact hinv.core.exchanges
  · intro y hy
    rcases mem_or_eq_of_mem_set hy with hy | rfl
    · exact hinv.core.handed y hy
    · exact hinv.core.handed x hmem

omit hinv

/-! ## Configurations -/

theorem inv_of_closed (hcore : Core env w) (hclosed : w.Each fun _ c => c.closed = true) (hparts : w'.parts = w.parts) :
    Goes env w w' := by
  have hconnections : w'.connections = w.connections := congrArg Prod.fst hparts
  refine ⟨⟨hcore.congr hparts, ?_⟩, ?_⟩
  · intro j c hc hopen
    rw [hconnections] at hc
    rw [hclosed j c hc] at hopen
    cases hopen
  · intro j c hc _
    rw [hconnections]
    exact hc

/-- **A new configuration.**  What it does not allow is closed when it returns. -/
theorem apply_inv (hinv : Inv env w) (config : Config Addr) (bound : Bool) :
    Goes env w (w.apply env config bound) := by
  have hcore : Core env { w with config := config } := hinv.core.congr rfl
  unfold apply
  dsimp only
  split
  · rename_i hsame
    simp only [Bool.and_eq_true, decide_eq_true_eq] at hsame
    split
    · obtain ⟨hend, hstay, hconfig, hlocal, hdone⟩ :=
        closeEach_core (fun c => !({ w with config := config } : Worker Addr Body).isAllowed env c.address) hcore
      refine ⟨⟨hend, ?_⟩, hstay⟩
      intro j c hc hopen
      rw [isAllowed_congr hconfig hlocal]
      simpa using hdone j c hc hopen
    rename_i hallow
    refine ⟨⟨hcore, ?_⟩, fun _ _ hd _ => hd⟩
    intro j c hc hopen
    have hbefore := hinv.allowed j c hc hopen
    have hallow : config.allow = w.config.allow := by simpa using hallow
    unfold isAllowed isLocal at hbefore ⊢
    rw [hsame.1.1.2, hallow]
    exact hbefore
  obtain ⟨hend, hstay, hclosed⟩ := closeAll_core hcore
  have hfinish {v : Worker Addr Body} (hv : v.parts = ({ w with config := config } : Worker Addr Body).closeAll.stopListening.parts) :
      Goes env w v := by
    obtain ⟨hi, hs⟩ := inv_of_closed hend hclosed (hv.trans (stopListening_parts _))
    exact ⟨hi, hstay.trans hs⟩
  split
  · exact hfinish rfl
  split
  · exact hfinish rfl
  split
  · exact hfinish rfl
  · exact hfinish rfl

/-! ## The loop ends -/

/-- What a round makes less: the input, or the frame that is being read. -/
def Connection.unread (c : Connection Addr) : Nat := 2 * c.input.length + if c.header = [] then 0 else 1

variable (hc : w.connections[i]? = some c)

include hc

/-- What was not read yet is no concern of the handler. -/
theorem handleRequest_unread {plaintext : Bytes} :
    ∃ c', (w.handleRequest env i plaintext).connections[i]? = some c' ∧ c'.unread = c.unread := by
  have hlt := (List.getElem?_eq_some_iff.mp hc).1
  unfold handleRequest
  split
  · simp only [sendResponse, hc]
    split
    · simp only [closeConnection, hc]
      split
      · exact ⟨c, hc, rfl⟩
      · exact ⟨_, List.getElem?_set_self hlt, rfl⟩
    · exact ⟨_, List.getElem?_set_self hlt, rfl⟩
  · simp only [hc]
    exact ⟨_, List.getElem?_set_self hlt, rfl⟩

theorem readBody_unread {c₁ : Connection Addr}
    (hmore : (w.readBody env i c₁).2 = true) :
    ∃ c', (w.readBody env i c₁).1.connections[i]? = some c' ∧ c'.unread ≤ 2 * c₁.input.length := by
  have hlt := (List.getElem?_eq_some_iff.mp hc).1
  unfold readBody at hmore ⊢
  dsimp only at hmore ⊢
  split at hmore
  · cases hmore
  rename_i hwhole
  rw [if_neg hwhole]
  split at hmore
  · cases hmore
  rename_i hroom
  rw [if_neg hroom]
  split at hmore
  · cases hmore
  rename_i plaintext hopened
  have hunread (w₁ : Worker Addr Body) (c₂ : Connection Addr) (h : w₁.connections[i]? = some c₂)
      (hc₂ : c₂.unread ≤ 2 * c₁.input.length) :
      ∃ c', (w₁.handleRequest env i plaintext).connections[i]? = some c' ∧ c'.unread ≤ 2 * c₁.input.length := by
    obtain ⟨c', hc', heq⟩ : ∃ c', (w₁.handleRequest env i plaintext).connections[i]? = some c' ∧ c'.unread = c₂.unread :=
      handleRequest_unread h
    exact ⟨c', hc', by omega⟩
  have hshort (missing : Nat) : 2 * (c₁.input.drop missing).length ≤ 2 * c₁.input.length := by
    rw [List.length_drop]
    omega
  split
  · refine hunread _ _ (List.getElem?_set_self hlt) ?_
    exact hshort _
  · refine hunread _ _ (List.getElem?_set_self hlt) ?_
    exact hshort _

theorem round_unread (hmore : (w.inputRound env i c).2 = true) :
    ∃ c', (w.inputRound env i c).1.connections[i]? = some c' ∧ c'.unread < c.unread := by
  have hlt := (List.getElem?_eq_some_iff.mp hc).1
  unfold inputRound at hmore ⊢
  split at hmore
  · cases hmore
  rename_i hopen
  rw [if_neg hopen]
  split at hmore
  · rename_i hhello
    rw [if_pos hhello]
    unfold readHello at hmore ⊢
    split at hmore
    · cases hmore
    rename_i hlong
    rw [if_neg hlong]
    dsimp only at hmore ⊢
    split at hmore
    · cases hmore
    rename_i hversion
    rw [if_neg hversion]
    refine ⟨_, List.getElem?_set_self hlt, ?_⟩
    have hsize : kClientHelloSize = 17 := rfl
    have hdrop : (c.input.drop kClientHelloSize).length = c.input.length - 17 := by rw [List.length_drop, hsize]
    simp only [unread, hdrop]
    omega
  rename_i hhello
  rw [if_neg hhello]
  split at hmore
  · cases hmore
  rename_i hready
  rw [if_neg hready]
  split at hmore
  · rename_i hheader
    rw [if_pos hheader]
    split at hmore
    · cases hmore
    rename_i hlong
    rw [if_neg hlong]
    dsimp only at hmore ⊢
    split at hmore
    · cases hmore
    rename_i hlength
    rw [if_neg hlength]
    obtain ⟨c', hc', hle⟩ := readBody_unread hc hmore
    refine ⟨c', hc', ?_⟩
    have hsize : kFrameHeaderSize = 4 := rfl
    have hdrop : (c.input.drop kFrameHeaderSize).length = c.input.length - 4 := by rw [List.length_drop, hsize]
    simp only [hdrop] at hle
    simp only [unread, hheader, if_true] at hle ⊢
    omega
  · rename_i hheader
    rw [if_neg hheader]
    obtain ⟨c', hc', hle⟩ := readBody_unread hc hmore
    refine ⟨c', hc', ?_⟩
    rw [unread, unread, if_neg hheader]
    rw [unread] at hle
    omega

theorem rounds_end {n : Nat} (h : c.unread < n) : ∃ w', Worker.processRounds env n w i = some w' := by
  induction n generalizing w c with
  | zero => omega
  | succ n ih =>
    rw [processRounds]
    simp only [hc]
    split
    · rename_i w' hround
      have hmore : (w.inputRound env i c).2 = true := by rw [hround]
      obtain ⟨c', hc', hlt⟩ := round_unread hc hmore
      rw [hround] at hc'
      exact ih hc' (by omega)
    · exact ⟨_, rfl⟩

omit hc

theorem rounds_more {n : Nat} (h : Worker.processRounds env n w i = some w') (more : Nat) :
    Worker.processRounds env (n + more) w i = some w' := by
  induction n generalizing w with
  | zero => cases h
  | succ n ih =>
    rw [Nat.add_right_comm, processRounds]
    rw [processRounds] at h
    split
    · rename_i hnone
      rwa [hnone] at h
    rename_i c hc
    simp only [hc] at h
    split
    · rename_i v hround
      rw [hround] at h
      exact ih h
    · rename_i v hround
      rwa [hround] at h

/-- **The loop ends**, and what it ends with does not depend on the number of rounds it is given. -/
theorem processInput_ends (w : Worker Addr Body) (i : Nat) :
    ∃ rounds, ∀ more, processRounds env (rounds + more) w i = some (processInput env w i) := by
  cases hc : w.connections[i]? with
  | none => exact ⟨1, fun more => by rw [Nat.add_comm]; simp [processRounds, processInput, hc]⟩
  | some c =>
    have hunread : c.unread < 2 * c.input.length + 2 := by
      unfold unread
      split <;> omega
    obtain ⟨w', hend⟩ := rounds_end hc hunread
    refine ⟨2 * c.input.length + 2, fun more => ?_⟩
    rw [rounds_more hend more]
    simp only [processInput, hc, hend, Option.getD_some]

/-! ## Runs -/

/-- **One event.** -/
theorem step_inv (hinv : Inv env w) (e : Event Addr Body) : Goes env w (w.step env e) := by
  cases e with
  | admitSocket socketPeer random =>
    simp only [step]
    split
    · exact admitSocket_inv hinv socketPeer random
    · exact ⟨hinv, .refl w⟩
  | input i chunk =>
    simp only [step]
    split
    · exact ⟨hinv, .refl w⟩
    rename_i c hc
    split
    · exact ⟨hinv, .refl w⟩
    · rename_i hopen
      have hopen : c.closed = false := by simpa using hopen
      exact then_processInput (socket_inv hinv hc hopen _ (((hinv.core.conn i c hc).2.2 hopen).arrives chunk _)) i
  | written i bytes =>
    simp only [step]
    split
    · exact ⟨hinv, .refl w⟩
    rename_i c hc
    split
    · exact ⟨hinv, .refl w⟩
    rename_i hopen
    have hopen : c.closed = false := by simpa using hopen
    have hframed := (hinv.core.conn i c hc).2.2 hopen
    have hsocket := socket_inv hinv hc hopen (c.unwritten - bytes) ⟨hframed.arrived, hframed.frames, hframed.next⟩
    split
    · exact then_processInput hsocket i
    · exact hsocket
  | answer k response => exact answer_inv hinv k response
  | dropped k => exact answer_inv hinv k _
  | deliver k =>
    simp only [step]
    split
    · exact ⟨hinv, .refl w⟩
    rename_i answer hanswer
    have hmem : answer ∈ w.given := hinv.core.mail answer (mem_of_getElem? hanswer)
    have htaken : Inv env { w with mailbox := w.mailbox.eraseIdx k } :=
      ⟨{ hinv.core with mail := fun a ha => hinv.core.mail a (mem_of_mem_eraseIdx ha) }, hinv.allowed⟩
    exact deliver_inv htaken hmem
  | timeout i =>
    simp only [step]
    split
    · exact ⟨hinv, .refl w⟩
    split
    · exact closeConnection_inv hinv i
    · exact ⟨hinv, .refl w⟩
  | disconnected i => exact closeConnection_inv hinv i
  | apply config bound => exact apply_inv hinv config bound
  | drain =>
    have hcore : Core env w.stopListening := hinv.core.congr (stopListening_parts w)
    obtain ⟨hend, hstay, hclosed⟩ := closeAll_core hcore
    refine ⟨⟨hend, ?_⟩, ?_⟩
    · intro j c hc hopen
      rw [hclosed j c hc] at hopen
      cases hopen
    · intro j c hc
      exact hstay j c (by rwa [show w.stopListening.connections = w.connections from congrArg Prod.fst (stopListening_parts w)])
  | tick ms => exact ⟨⟨hinv.core.congr rfl, hinv.allowed⟩, fun _ _ hd _ => hd⟩

theorem inv_new (env : Env Addr Body) : Inv env ({} : Worker Addr Body) where
  core := by
    refine ⟨?_, fun _ => rfl, by simp, nodup_nil, by simp, nodup_nil, by simp⟩
    intro i c hc
    simp at hc
  allowed := by
    intro i c hc
    simp at hc

/-- What holds of every connection, open or closed, and of the worker. -/
structure Safe (env : Env Addr Body) (w : Worker Addr Body) : Prop where
  /-- At most one request waits for its answer, and an open connection knows whether one does. -/
  onePending : w.Each fun _ c =>
    (c.opened env).length ≤ c.seals.length + 1 ∧
      (c.closed = false → (c.phase = .pending ↔ (c.opened env).length = c.seals.length + 1))
  /-- The `j`-th frame sent answers the `j`-th frame that authenticated. -/
  answers : w.Each fun i c => ∀ (j : Nat) call, c.seals[j]? = some call →
    ∃ plaintext, (c.opened env)[j]? = some plaintext ∧
      Answers env w.given i (numberAt env (c.opened env) j) plaintext call.plaintext
  /-- What was written are the random bytes and the sealed frames. -/
  output : w.Each fun _ c =>
    c.output = c.serverRandom ++ c.seals.flatMap (·.frame env)
  /-- Every exchange was given at most one answer, and holds the request of the frame with its number. -/
  once : (w.given.map (fun a => (a.connection, a.number))).Nodup ∧
    ∀ a ∈ w.given, ∃ x ∈ w.exchanges, x.connection = a.connection ∧ x.number = a.number ∧
      ∃ c, w.connections[x.connection]? = some c ∧ Handed env x c
  /-- The calls of the cipher have the counters 0, 1, 2, … in both directions, and no key and nonce twice. -/
  counters : w.Each fun _ c =>
    c.opens.map (·.counter) = range c.opens.length ∧ c.seals.map (·.counter) = range c.seals.length
  nonces : w.Each fun _ c =>
    (c.opens.map (fun call => (call.key, nonce call.counter))).Nodup ∧
      (c.seals.map (fun call => (call.key, nonce call.counter))).Nodup
  /-- A frame that does not authenticate is the last one of its connection, which is closed. -/
  failed : w.Each fun _ c => ∀ (k : Nat) call, c.opens[k]? = some call →
    call.plaintext env = none → c.closed = true ∧ k + 1 = c.opens.length
  /-- An open connection has read nothing but frames of a valid length, all of which it opened or is about to. -/
  framed : w.Each fun _ c => c.closed = false → Framed c
  /-- A closed connection is never touched again. -/
  closed : ∀ e, ClosedStay w (w.step env e)
  perPeer : ∀ address, w.perPeer (env.text address) =
    w.connections.countP (fun c => !c.closed && env.text c.address == env.text address)
  allowed : w.Each fun _ c => c.closed = false → w.isAllowed env c.address = true

theorem nonce_inj {a b : Nat} (ha : a ≤ kMaxCounter) (hb : b ≤ kMaxCounter) (h : nonce a = nonce b) : a = b := by
  have hbytes := reverse_injective (append_cancel_left h)
  have hnum := congrArg leNat hbytes
  have hpow : kMaxCounter < 256 ^ 8 := by decide
  rwa [leNat_leBytes (by omega), leNat_leBytes (by omega)] at hnum

theorem nonces_nodup {α : Type} {calls : List α} {key : α → Bytes} {counter : α → Nat}
    (h : calls.map counter = range calls.length)
    (hbound : calls.length ≤ kMaxCounter) : (calls.map (fun call => (key call, nonce (counter call)))).Nodup := by
  refine Nodup.of_map Prod.snd ?_
  have hmap : (calls.map (fun call => (key call, nonce (counter call)))).map Prod.snd =
    (calls.map counter).map nonce := by
    rw [map_map, map_map]
    rfl
  rw [hmap, h]
  refine Nodup.map_on ?_ nodup_range
  intro a ha b hb heq
  rw [mem_range] at ha hb
  exact nonce_inj (by omega) (by omega) heq

theorem Inv.safe (hinv : Inv env w) : Safe env w where
  onePending i c hc := by
    obtain ⟨hok, -⟩ := hinv.core.conn i c hc
    rw [hok.sealed, hok.opened]
    refine ⟨hok.order.2, fun hopen => ⟨hok.pending, fun hwait => ?_⟩⟩
    by_contra hnot
    have := hok.free hnot hopen
    omega
  answers i c hc := (hinv.core.conn i c hc).1.answers
  output i c hc := (hinv.core.conn i c hc).1.output
  once := by
    refine ⟨hinv.core.given, ?_⟩
    intro a ha
    obtain ⟨x, hx, hxc, hxn, _⟩ := hinv.core.answered a ha
    exact ⟨x, hx, hxc, hxn, hinv.core.handed x hx⟩
  counters i c hc := by
    obtain ⟨hok, -⟩ := hinv.core.conn i c hc
    exact ⟨hok.opens, by rw [hok.sealed]; exact hok.seals⟩
  nonces i c hc := by
    obtain ⟨hok, -⟩ := hinv.core.conn i c hc
    exact ⟨nonces_nodup hok.opens hok.bound.1,
      nonces_nodup (by rw [hok.sealed]; exact hok.seals) (by rw [hok.sealed]; exact hok.bound.2)⟩
  failed i c hc _ _ hcall hnone := (hinv.core.conn i c hc).1.failed hcall hnone
  framed i c hc := (hinv.core.conn i c hc).2.2
  closed e := (step_inv hinv e).2
  perPeer address := by
    rw [hinv.core.perPeer]
    refine countP_congr ?_
    intro c hc
    obtain ⟨i, hi⟩ := getElem?_of_mem hc
    rw [(hinv.core.conn i c hi).1.peer]
  allowed := hinv.allowed

end

end Waterdisco.Remote
