import SymmetricCipher.Proofs.Processing

/-!
# Sessions are closed again, once

A context opens sessions with simulated backends and closes them, and its ledger tells in which
order. `Ledger.Records` is the grammar of such ledgers: a session is opened under the next ticket
where none is held, and the one that is held is closed. Every call of a context keeps to the
grammar, and whatever keeps to it leaks no session, doubles none and closes none twice.
-/

namespace SymmetricCipher

namespace Ledger

variable {l before after front : Ledger} {held : Option Nat} {t : Nat}

/-- The ledgers of a holder of the session with the ticket, or of none. -/
inductive Records : Ledger → Option Nat → Prop where
  | empty : Records [] none
  | opened {l : Ledger} (rest : Records l none) :
      Records (l ++ [.opened l.nextTicket]) (some l.nextTicket)
  | closed {l : Ledger} {t : Nat} (rest : Records l (some t)) : Records (l ++ [.closed t]) none

/-- No session is leaked, doubled or closed twice. -/
structure Orderly (l : Ledger) (held : Option Nat) : Prop where
  /-- What is open is what is held. -/
  balance : l.opened = l.closed + if held.isSome then 1 else 0
  opened_once : ∀ t, l.count (.opened t) = if t < l.opened then 1 else 0
  /-- A session that is not held any more was closed, once. -/
  closed_once : ∀ t, l.count (.closed t) = if t < l.opened ∧ held ≠ some t then 1 else 0
  /-- A session is opened when all sessions before it are closed. -/
  opened_after : ∀ {before after : Ledger} {t : Nat}, l = before ++ .opened t :: after →
    before.opened = before.closed ∧
      ∀ s, SessionEvent.opened s ∈ before → SessionEvent.closed s ∈ before
  closed_after : ∀ {before after : Ledger} {t : Nat}, l = before ++ .closed t :: after →
    SessionEvent.opened t ∈ before
  /-- At no time are two sessions open. -/
  one_live : ∀ {front : Ledger}, front <+: l →
    front.closed ≤ front.opened ∧ front.opened ≤ front.closed + 1

/-- The sessions that two ledgers open add up. -/
@[simp] lemma opened_append (l l' : Ledger) : opened (l ++ l') = l.opened + l'.opened :=
  List.countP_append

/-- The sessions that two ledgers close add up. -/
@[simp] lemma closed_append (l l' : Ledger) : closed (l ++ l') = l.closed + l'.closed :=
  List.countP_append

/-- An empty ledger opens nothing. -/
@[simp] lemma opened_nil : opened [] = 0 := rfl

/-- An empty ledger closes nothing. -/
@[simp] lemma closed_nil : closed [] = 0 := rfl

/-- An entry of an opening opens one session. -/
@[simp] lemma opened_opened (t : Nat) : opened [.opened t] = 1 := rfl

/-- An entry of a closing opens none. -/
@[simp] lemma opened_closed (t : Nat) : opened [.closed t] = 0 := rfl

/-- An entry of an opening closes none. -/
@[simp] lemma closed_opened (t : Nat) : closed [.opened t] = 0 := rfl

/-- An entry of a closing closes one session. -/
@[simp] lemma closed_closed (t : Nat) : closed [.closed t] = 1 := rfl

namespace Records

/-- The session that is held was the last one to be opened. -/
lemma opened_of_held (h : l.Records (some t)) : l.opened = t + 1 := by
  cases h with
  | opened rest => rw [opened_append, opened_opened, nextTicket]

/-- As many sessions were closed as were opened, but for the one that is held. -/
lemma balance (h : l.Records held) : l.opened = l.closed + if held.isSome then 1 else 0 := by
  induction h with
  | empty => rfl
  | opened rest ih =>
    rw [opened_append, closed_append, opened_opened, closed_opened, ih]
    rfl
  | closed rest ih =>
    rw [opened_append, closed_append, opened_closed, closed_closed, ih]
    rfl

/-- Tickets are given out in order, each one once. -/
lemma count_opened (h : l.Records held) (t : Nat) :
    l.count (.opened t) = if t < l.opened then 1 else 0 := by
  induction h with
  | empty => rfl
  | @opened l rest ih =>
    -- the next ticket is the number of those before it, so it is new
    rw [List.count_append, ih, opened_append, opened_opened, List.count_singleton, nextTicket]
    simp only [beq_iff_eq, SessionEvent.opened.injEq]
    grind
  | @closed l s rest ih =>
    rw [List.count_append, ih, opened_append, opened_closed, List.count_singleton]
    rfl

/-- A ticket is closed once, when its session is not held any more. -/
lemma count_closed (h : l.Records held) (t : Nat) :
    l.count (.closed t) = if t < l.opened ∧ held ≠ some t then 1 else 0 := by
  induction h with
  | empty => rfl
  | @opened l rest ih =>
    rw [List.count_append, ih, opened_append, opened_opened, List.count_singleton, nextTicket]
    simp only [beq_iff_eq, reduceCtorEq, ne_eq, Option.some.injEq]
    grind
  | @closed l s rest ih =>
    -- the session was held until now, so nothing had closed it
    have hlast := rest.opened_of_held
    rw [List.count_append, ih, opened_append, opened_closed, List.count_singleton]
    simp only [beq_iff_eq, SessionEvent.closed.injEq, reduceCtorEq, ne_eq, Option.some.injEq]
    grind

/-- What came before an entry kept to the grammar, too. -/
lemma of_prefix (h : l.Records held) : ∀ {front : Ledger}, front <+: l →
    ∃ held', front.Records held' := by
  induction h with
  | empty =>
    intro front hf
    rw [List.prefix_nil.1 hf]
    exact ⟨none, .empty⟩
  | opened rest ih =>
    intro front hf
    rcases List.prefix_concat_iff.1 hf with rfl | hf
    · exact ⟨_, .opened rest⟩
    · exact ih hf
  | closed rest ih =>
    intro front hf
    rcases List.prefix_concat_iff.1 hf with rfl | hf
    · exact ⟨_, .closed rest⟩
    · exact ih hf

/-- The last entry says what was held before it. -/
lemma of_concat {event : SessionEvent} (h : (l ++ [event]).Records held) :
    (event = .opened l.nextTicket ∧ l.Records none) ∨
      ∃ t, event = .closed t ∧ l.Records (some t) := by
  generalize hl : l ++ [event] = whole at h
  cases h with
  | empty => exact absurd hl (List.concat_ne_nil _ _)
  | opened rest =>
    obtain ⟨rfl, he⟩ := List.append_inj' hl rfl
    exact .inl ⟨List.head_eq_of_cons_eq he, rest⟩
  | closed rest =>
    obtain ⟨rfl, he⟩ := List.append_inj' hl rfl
    exact .inr ⟨_, List.head_eq_of_cons_eq he, rest⟩

/-- Every entry opens the next session when none is held, or closes the one that is held. -/
lemma of_entry {event : SessionEvent} (h : (before ++ event :: after).Records held) :
    (event = .opened before.nextTicket ∧ before.Records none) ∨
      ∃ t, event = .closed t ∧ before.Records (some t) := by
  rw [List.append_cons] at h
  obtain ⟨held', h'⟩ := h.of_prefix (List.prefix_append _ after)
  exact h'.of_concat

/-- A ledger that records is orderly. -/
theorem orderly (h : l.Records held) : l.Orderly held where
  balance := h.balance
  opened_once := h.count_opened
  closed_once := h.count_closed
  opened_after := by
    rintro before after t rfl
    rcases h.of_entry with ⟨-, rest⟩ | ⟨s, he, -⟩
    · refine ⟨rest.balance, fun s hs => List.count_pos_iff.1 ?_⟩
      -- nothing was held, and so whatever was opened had been closed
      have hopened := List.count_pos_iff.2 hs
      rw [rest.count_opened] at hopened
      rw [rest.count_closed]
      grind
    · cases he
  closed_after := by
    rintro before after t rfl
    rcases h.of_entry with ⟨he, -⟩ | ⟨s, he, rest⟩
    · cases he
    · cases he
      have hlast := rest.opened_of_held
      rw [← List.count_pos_iff, rest.count_opened, if_pos (by omega)]
      exact Nat.one_pos
  one_live := by
    intro front hf
    obtain ⟨held', hr⟩ := h.of_prefix hf
    have hb := hr.balance
    split at hb <;> omega

/-- Closing what is held leaves a record with nothing held. -/
lemma noteClosed (h : l.Records held) : (l.noteClosed held).Records none := by
  cases held with
  | none =>
    rw [Ledger.noteClosed, Option.map_none, Option.toList_none, List.append_nil]
    exact h
  | some t => exact .closed h

/-- Opening the next session, or none, goes on with the record. -/
lemma noteOpened (h : l.Records none) (ht : held = none ∨ held = some l.nextTicket) :
    (l.noteOpened held).Records held := by
  rcases ht with rfl | rfl
  · rw [Ledger.noteOpened, Option.map_none, Option.toList_none, List.append_nil]
    exact h
  · exact .opened h

end Records

end Ledger

namespace Machine

variable {algorithm : Algorithm} {mode : Mode} {key iv : Bytes} {ticket : Nat} {m : Machine}

/-- A session is opened under the ticket, or has nothing to release. -/
lemma ticket?_accelerated_cases {backend : Backend} {emulate : Bool}
    (h : accelerated backend emulate ticket algorithm mode key iv = .ok m) :
    m.ticket? = none ∨ m.ticket? = some ticket := by
  rcases accelerated_eq_ok_iff.1 h with ⟨-, cipher, -, rfl⟩ | ⟨-, s, hopened, rfl⟩
  · exact .inl rfl
  · cases hopened with
    | provider keyed starts => exact .inl rfl
    | simulated works keyed => exact .inr rfl

/-- What is built holds no session, or the one that it was given the ticket for. -/
lemma ticket?_ofSelection_cases {selection : Selection} {engine : Engine}
    (h : ofSelection selection ticket algorithm mode key iv = .ok (engine, m)) :
    m.ticket? = none ∨ m.ticket? = some ticket := by
  rcases ofSelection_cases h with ⟨-, hsoft⟩ | ⟨-, backend, emulate, -, hacc⟩
  · exact .inl (ticket?_software hsoft)
  · exact ticket?_accelerated_cases hacc

end Machine

namespace Context

variable {c c' : Context} {m : Machine}

/-- A context that holds the session its ledger tells of. -/
def Accounts (c : Context) : Prop := c.ledger.Records c.machinery.ticket?

/-- At most one session was opened since, and at most one closed. -/
def Extends (c' c : Context) : Prop :=
  ∃ events : Ledger, c'.ledger = c.ledger ++ events ∧ events.opened ≤ 1 ∧ events.closed ≤ 1

/-- A ledger that stays as it is extends itself. -/
lemma Extends.of_ledger_eq (h : c'.ledger = c.ledger) : c'.Extends c :=
  ⟨[], h.trans (List.append_nil _).symm, Nat.zero_le _, Nat.zero_le _⟩

namespace Accounts

/-- A context that is created keeps accounts. -/
lemma of_create {algorithm : Algorithm} {mode : Mode} {backends : List Backend}
    (h : create algorithm mode backends = .ok c) : c.Accounts := by
  rw [create] at h
  split at h <;> cases h
  exact .empty

/-- A context that gives up its machine keeps accounts. -/
lemma close (h : c.Accounts) : c.close.Accounts := Ledger.Records.noteClosed h

/-- Settings do not touch the session that is held. -/
lemma adopt (h : c.Accounts) (call : Call) (s : Settings) : (c.adopt call s).Accounts := by
  have ht : (c.adopt call s).machinery.ticket? = c.machinery.ticket? := by
    cases he : call.effect with
    | rebuild =>
      simp only [Context.adopt, he]
      cases c.machinery <;> rfl
    | _ => simp only [Context.adopt, he]
  rw [Accounts, ht]
  exact h

/-- The session of a machine that is ready is the one the ledger tells of. -/
lemma ready (h : c.Accounts) (hr : c.ready = .ok (m, c')) :
    c'.ledger.Records m.ticket? ∧ c'.Extends c := by
  obtain ⟨-, key, engine, -, hcases⟩ := ready_cases hr
  rcases hcases with ⟨hm, -, -, rfl⟩ | ⟨old, hm, hrestart, -, rfl⟩ | ⟨-, hb, rfl⟩
  · rw [Accounts, hm] at h
    exact ⟨h, .of_ledger_eq rfl⟩
  · rw [Accounts, hm] at h
    rw [Machine.ticket?_restart hrestart]
    exact ⟨h, .of_ledger_eq rfl⟩
  · refine ⟨h.close.noteOpened (Machine.ticket?_ofSelection_cases hb), _, List.append_assoc .., ?_⟩
    -- the old session is closed and then the new one is opened, if there are any
    rw [Ledger.opened_append, Ledger.closed_append]
    cases c.machinery.ticket? <;> cases m.ticket? <;> simp

/-- Data keeps the accounts, and closes and opens at most one session. -/
lemma process (h : c.Accounts) (direction : Direction) (data : Bytes) :
    (c.process direction data).2.Accounts ∧ (c.process direction data).2.Extends c := by
  rcases c.process_cases direction data with ⟨e, -, hsame⟩ | ⟨m, c', m', lost, hr, hran, -, hleft⟩
  · rw [hsame]
    exact ⟨h, .of_ledger_eq rfl⟩
  · have ht : m'.ticket? = m.ticket? := by
      rcases hran with rfl | ⟨x, rfl⟩
      · rfl
      · exact m.ticket?_apply direction x
    obtain ⟨hledger, hextends⟩ := h.ready hr
    obtain ⟨-, key, engine, ledger, -, -, rfl⟩ := of_ready hr
    -- a call does not change what is held, so the ledger of the machine that is ready still fits
    rw [hleft]
    refine ⟨?_, hextends⟩
    rw [← ht] at hledger
    exact hledger

/-- Every call keeps the accounts. -/
lemma perform (h : c.Accounts) (call : Call) : (c.perform call).2.Accounts :=
  c.perform_cases (motive := fun _ r => r.2.Accounts) (fun _ _ => h)
    (fun {call s} _ _ => h.adopt call s) (fun direction data => (h.process direction data).1) call

/-- By induction over the calls, so does every run. -/
lemma run (h : c.Accounts) (calls : List Call) : (c.run calls).2.Accounts :=
  run_keeps perform h calls

end Accounts

/-- No setting opens or closes a session. -/
lemma ledger_perform_setting (c : Context) {call : Call} (h : call.IsSetting) :
    (c.perform call).2.ledger = c.ledger := by
  rw [perform_setting c h]
  split <;> rfl

/-- Over any backends and through any run of calls, the ledger of a context is in order, and tells
of the session that the context holds. Settings leave it alone, and a call with data adds one
session that is opened and one that is closed at most. Once the context is given up, all are
closed. -/
theorem ledger_orderly {algorithm : Algorithm} {mode : Mode} (h : algorithm.supports mode = true)
    (backends : List Backend) :
    ∃ c, create algorithm mode backends = .ok c ∧ ∀ calls, ∃ answers c',
      c.run calls = (answers, c') ∧ c'.ledger.Orderly c'.machinery.ticket? ∧
      (∀ call : Call, call.IsSetting → (c'.perform call).2.ledger = c'.ledger) ∧
      (∀ direction data, (c'.process direction data).2.Extends c') ∧
      c'.close.ledger.Orderly none := by
  obtain ⟨c, hc, -⟩ := create_ok h backends
  refine ⟨c, hc, fun calls => ?_⟩
  have hrun := (Accounts.of_create hc).run calls
  exact ⟨_, _, rfl, hrun.orderly, fun _ => ledger_perform_setting _,
    fun direction data => (hrun.process direction data).2, hrun.close.orderly⟩

/-- A simulated backend that breaks after a call is no exception. -/
theorem ledger_orderly_breaking :
    Algorithm.aes.supports .cbc = true ∧
    ∃ c, create .aes .cbc
        [.simulated (.ofOffers "fake" [(.cbc, ⟨.aes, none⟩)] [] { afterCalls := some 1 })] = .ok c ∧
      ∀ calls, ∃ answers c',
        c.run calls = (answers, c') ∧ c'.ledger.Orderly c'.machinery.ticket? ∧
        (∀ call : Call, call.IsSetting → (c'.perform call).2.ledger = c'.ledger) ∧
        (∀ direction data, (c'.process direction data).2.Extends c') ∧
        c'.close.ledger.Orderly none :=
  ⟨rfl, ledger_orderly rfl _⟩

/-- A session that breaks is held until the next key, and the one under that key until the next
engine. -/
example :
    ((create .aes .cbc [.simulated (.ofOffers "fake" [(.cbc, ⟨.aes, none⟩)] []
        { afterCalls := some 1 })]).toOption.map
      fun c => (c.run [.setKey (List.replicate 16 17), .process .encrypt [1], .process .encrypt [2],
        .setKey (List.replicate 16 34), .process .encrypt [3], .prefer (some .software),
        .process .encrypt [4]]).2.ledger) =
      some [.opened 0, .closed 0, .opened 1, .closed 1] := by
  decide +kernel

end Context

end SymmetricCipher
