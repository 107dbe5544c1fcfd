/-
# Exactly-once delivery

Any number of clients claim pages, fill them, enqueue them and call for them at one
frontier. A `Deed` is one thing that one of them does, and a call is as many deeds as
it makes accesses, so a list of deeds is an interleaving of everybody's doings. The
frontier may have been opened on any directory, and it may be finished at any time.

The books of the frontier are kept in balance by every deed, and what is promised of
delivery is read off them: tickets are dispensed in order, a ticket is answered only
with the page of that number, no page is delivered twice, none is delivered that was
not enqueued, and what was enqueued and not delivered lies in exactly one store.
-/

import Wavefront.CounterGrid
import Wavefront.Frontier.Crowd
import Wavefront.Proofs.Frontier.Balance
import Wavefront.Proofs.Parties

namespace Wavefront

open History

variable {σ : Type}

/-! ## Clients -/

namespace Client

/-- The pages in a client's hands. -/
def pages (client : Client σ) : List (Page σ) :=
  client.held.toList ++ (client.call.map Wait.pages).getD []

/-- The ticket that a client waits on. -/
def tickets (client : Client σ) : List Nat := (client.call.bind Wait.ticket?).toList

/-- The pages that a client has received. -/
def received (client : Client σ) : List (Page σ) :=
  client.replies.filterMap fun
    | .ok page => page
    | .error _ => none

/-- The events that a client's next access stands for. -/
def events (model : Model σ) (client : Client σ) (frontier : Frontier σ) (disk : Disk) :
    History σ :=
  match client.call with
  | none => []
  | some wait => wait.events model client.held frontier disk

end Client

/-! ## Traffic -/

/-- Clients at a frontier, the pages that were claimed and given to none of them yet, and what
has happened so far. -/
structure Traffic (σ : Type) where
  frontier : Frontier σ
  disk : Disk
  clients : List (Client σ)
  /-- Pages that were claimed and are being filled. -/
  slots : List (Page σ)
  past : History σ

/-- One thing that somebody does. -/
inductive Deed (σ : Type) where
  /-- Claim a page. -/
  | claim
  /-- Add a node to a claimed page. -/
  | add (slot : Nat) (node : Node σ)
  /-- Enqueue a claimed page. -/
  | enqueue (slot : Nat)
  /-- Enqueue a node on a page of its own. -/
  | enqueueNode (node : Node σ)
  /-- Begin a call, holding one of the claimed pages or none. -/
  | call (slot : Option Nat) (drains : Bool)
  /-- Make the next access of a call. -/
  | access (client : Nat)
  /-- Take back the page that a client holds whose call has ended. -/
  | retrieve (client : Nat)
  /-- Let nothing be delivered any more. -/
  | finish

namespace Traffic

/-- A frontier at which nothing has happened yet. -/
def opened (frontier : Frontier σ) (disk : Disk) : Traffic σ := ⟨frontier, disk, [], [], []⟩

/-- Do one thing; what cannot be done has no effect. -/
def act (model : Model σ) (traffic : Traffic σ) (deed : Deed σ) : Traffic σ :=
  match deed with
  | .claim =>
      let (page, frontier) := traffic.frontier.claim
      { traffic with frontier := frontier, slots := traffic.slots ++ [page] }
  | .add slot node =>
      match traffic.slots[slot]? with
      | none => traffic
      | some page =>
          match page.add node with
          | .error _ => traffic
          | .ok grown => { traffic with slots := traffic.slots.set slot grown }
  | .enqueue slot =>
      match traffic.slots[slot]? with
      | none => traffic
      | some page =>
          let (_, frontier, disk) := traffic.frontier.enqueue model page traffic.disk
          { traffic with
            frontier := frontier
            disk := disk
            slots := traffic.slots.eraseIdx slot
            past := traffic.past ++ traffic.frontier.enqueueEvents model page traffic.disk }
  | .enqueueNode node =>
      let (_, frontier, disk) := traffic.frontier.enqueueNode model node traffic.disk
      { traffic with
        frontier := frontier
        disk := disk
        past := traffic.past ++ traffic.frontier.enqueueNodeEvents model node traffic.disk }
  | .call none drains =>
      { traffic with clients := traffic.clients ++ [.calling none drains] }
  | .call (some slot) drains =>
      { traffic with
        clients := traffic.clients ++ [.calling traffic.slots[slot]? drains]
        slots := traffic.slots.eraseIdx slot }
  | .access position =>
      match traffic.clients[position]? with
      | none => traffic
      | some client =>
          let (client', frontier, disk) := client.step model traffic.frontier traffic.disk
          { traffic with
            frontier := frontier
            disk := disk
            clients := traffic.clients.set position client'
            past := traffic.past ++ client.events model traffic.frontier traffic.disk }
  | .retrieve position =>
      match traffic.clients[position]? with
      | none => traffic
      | some client =>
          if client.isIdle then
            { traffic with
              clients := traffic.clients.set position { client with held := none }
              slots := traffic.slots ++ client.held.toList }
          else traffic
  | .finish => { traffic with frontier := traffic.frontier.finish }

/-- Do one thing after another. -/
def run (model : Model σ) (traffic : Traffic σ) (deeds : List (Deed σ)) : Traffic σ :=
  deeds.foldl (act model) traffic

/-- The pages in somebody's hands. -/
def hands (traffic : Traffic σ) : List (Page σ) :=
  traffic.slots ++ traffic.clients.flatMap Client.pages

/-- The tickets that are outstanding. -/
def tickets (traffic : Traffic σ) : List Nat := traffic.clients.flatMap Client.tickets

/-- The pages that were received. -/
def received (traffic : Traffic σ) : List (Page σ) := traffic.clients.flatMap Client.received

/-- The frontier's books are in balance, and what was delivered was received. -/
structure Sound (model : Model σ) (place : Location) (traffic : Traffic σ) : Prop where
  books : traffic.frontier.Balanced model place traffic.disk traffic.past traffic.hands
    traffic.tickets
  received : traffic.received.Perm ((delivered traffic.past).map (·.2))

end Traffic

/-! ## A client's access -/

section

variable {model : Model σ} {place : Location} {frontier : Frontier σ} {disk : Disk}
  {past : History σ} {hands : List (Page σ)} {tickets : List Nat} {client : Client σ}

/-- A client's access keeps the books in balance, and the client receives what is delivered. -/
theorem Client.balanced_step
    (balanced : frontier.Balanced model place disk past (client.pages ++ hands)
      (client.tickets ++ tickets)) :
    let after := client.step model frontier disk
    after.2.1.Balanced model place after.2.2 (past ++ client.events model frontier disk)
        (after.1.pages ++ hands) (after.1.tickets ++ tickets) ∧
      after.1.received =
        client.received ++ (delivered (client.events model frontier disk)).map (·.2) := by
  rcases call : client.call with _ | wait
  · simp only [Client.step, Client.events, call, List.append_nil, delivered_nil, List.map_nil]
    exact ⟨balanced, trivial⟩
  · have turn := @Wait.turn_step σ model client.held frontier disk wait
    simp only [Client.pages, Client.tickets, call, Option.map_some, Option.getD_some,
      Option.bind_some] at balanced
    simp only [Client.step, Client.events, call]
    generalize wait.step model client.held frontier disk = after at turn ⊢
    generalize wait.events model client.held frontier disk = events at turn ⊢
    obtain ⟨books, -⟩ := turn.balanced balanced
    have received := turn.received
    rcases after with ⟨progress, held, next, final⟩
    cases progress with
    | waiting wait =>
      simp only [Progress.received] at received
      simpa [Client.pages, Client.tickets, Client.received, received] using books
    | delivered page =>
      simp only [Progress.received] at received
      cases client.drains <;>
        simpa [Client.pages, Client.tickets, Client.received, received] using books
    | finished =>
      simp only [Progress.received] at received
      simpa [Client.pages, Client.tickets, Client.received, received] using books
    | stopped stop =>
      simp only [Progress.received] at received
      simpa [Client.pages, Client.tickets, Client.received, received] using books

end

/-! ## Deeds -/

namespace Traffic

variable {model : Model σ} {place : Location} {traffic : Traffic σ}

theorem sound_opened {frontier : Frontier σ} {disk : Disk}
    (balanced : frontier.Balanced model place disk [] [] []) :
    Sound model place (opened frontier disk) :=
  ⟨balanced, .refl _⟩

/-- The traffic with a claimed page taken out of its slot. -/
theorem Sound.pick {slot : Nat} {page : Page σ} (sound : Sound model place traffic)
    (found : traffic.slots[slot]? = some page) :
    traffic.frontier.Balanced model place traffic.disk traffic.past
      (page :: (traffic.slots.eraseIdx slot ++ traffic.clients.flatMap Client.pages))
      traffic.tickets :=
  sound.books.perm ((perm_cons_others found).symm.append_right _) (.refl _)

/-- A client's access keeps the traffic sound. -/
theorem Sound.access {position : Nat} {client : Client σ} (sound : Sound model place traffic)
    (found : traffic.clients[position]? = some client) :
    Sound model place (traffic.act model (.access position)) := by
  have split : traffic.frontier.Balanced model place traffic.disk traffic.past
      (client.pages ++ ((traffic.clients.eraseIdx position).flatMap Client.pages ++ traffic.slots))
      (client.tickets ++ (traffic.clients.eraseIdx position).flatMap Client.tickets) := by
    refine sound.books.perm ?_ (flatMap_perm_others _ found).symm
    rw [← List.append_assoc]
    exact List.perm_append_comm.trans ((flatMap_perm_others _ found).symm.append_left _)
  obtain ⟨books, received⟩ := Client.balanced_step split
  simp only [act, found]
  refine ⟨books.perm ?_ (flatMap_set_perm_others _ found), ?_⟩
  · rw [← List.append_assoc]
    exact ((flatMap_set_perm_others _ found).append_left _).trans List.perm_append_comm
  · rw [delivered_append, List.map_append]
    refine (flatMap_set_perm_others _ found).trans ?_
    rw [received, List.append_assoc]
    have before := (flatMap_perm_others Client.received found).symm.trans sound.received
    refine (List.perm_append_comm.append_left _).trans ?_
    rw [← List.append_assoc]
    exact before.append_right _

/-- Every deed keeps the traffic sound. -/
theorem Sound.act (sound : Sound model place traffic) (deed : Deed σ) :
    Sound model place (traffic.act model deed) := by
  cases deed with
  | claim =>
    refine ⟨sound.books.claim.perm ?_ (.refl _), sound.received⟩
    show (traffic.slots ++ [traffic.frontier.claim.1] ++ _).Perm _
    rw [List.append_assoc]
    exact List.perm_middle
  | add slot node =>
    rcases found : traffic.slots[slot]? with _ | page
    · simpa [Traffic.act, found] using sound
    · rcases added : page.add node with _ | grown
      · simpa [Traffic.act, found, added] using sound
      · simp only [Traffic.act, found, added]
        refine ⟨((sound.pick found).add added).perm ?_ (.refl _), sound.received⟩
        exact (set_perm_cons_others found).append_right _
  | enqueue slot =>
    rcases found : traffic.slots[slot]? with _ | page
    · simpa [Traffic.act, found] using sound
    · simp only [Traffic.act, found]
      rcases done : traffic.frontier.enqueue model page traffic.disk with ⟨result, after, final⟩
      refine ⟨((sound.pick found).part done).1, ?_⟩
      have quiet : delivered (traffic.frontier.enqueueEvents model page traffic.disk) = [] :=
        Frontier.delivered_enqueueEvents
      show traffic.received.Perm _
      simpa [quiet] using sound.received
  | enqueueNode node =>
    simp only [Traffic.act]
    rcases done : traffic.frontier.enqueueNode model node traffic.disk with ⟨result, after, final⟩
    refine ⟨(sound.books.enqueueNode done).1, ?_⟩
    have quiet : delivered (traffic.frontier.enqueueNodeEvents model node traffic.disk) = [] :=
      Frontier.delivered_enqueueNodeEvents
    show traffic.received.Perm _
    simpa [quiet] using sound.received
  | call slot drains =>
    rcases slot with _ | slot
    · refine ⟨sound.books.perm ?_ ?_, ?_⟩
      · simp [Traffic.act, Traffic.hands, Client.pages, Client.calling]
      · simp [Traffic.act, Traffic.tickets, Client.tickets, Client.calling]
      · simpa [Traffic.act, Traffic.received, Client.received, Client.calling] using sound.received
    · refine ⟨sound.books.perm ?_ ?_, ?_⟩
      · rcases found : traffic.slots[slot]? with _ | page
        · have same : traffic.slots.eraseIdx slot = traffic.slots :=
            List.eraseIdx_of_length_le (List.getElem?_eq_none_iff.mp found)
          simp [Traffic.act, Traffic.hands, Client.pages, Client.calling, found, same]
        · simp only [Traffic.act, Traffic.hands, Client.pages, Client.calling, found,
            List.flatMap_append, List.flatMap_cons, List.flatMap_nil, Option.toList_some,
            Option.map_some, Option.getD_some, Wait.pages, List.append_nil]
          rw [← List.append_assoc]
          refine (List.perm_append_singleton _ _).trans ?_
          exact ((perm_cons_others found).symm.append_right _)
      · simp [Traffic.act, Traffic.tickets, Client.tickets, Client.calling]
      · simpa [Traffic.act, Traffic.received, Client.received, Client.calling] using sound.received
  | access position =>
    rcases found : traffic.clients[position]? with _ | client
    · simpa [Traffic.act, found] using sound
    · exact sound.access found
  | retrieve position =>
    rcases found : traffic.clients[position]? with _ | client
    · simpa [Traffic.act, found] using sound
    · by_cases idle : client.isIdle = true
      · have ended : client.call = none := by simpa [Client.isIdle] using idle
        simp only [Traffic.act, found, if_pos idle]
        refine ⟨sound.books.perm ?_ ?_, ?_⟩
        · have before := flatMap_perm_others Client.pages found
          have after := @flatMap_set_perm_others _ _ _ _ _ { client with held := none }
            Client.pages found
          simp only [Client.pages, ended, Option.map_none, Option.getD_none, List.append_nil,
            Option.toList_none, List.nil_append] at before after
          simp only [Traffic.hands, List.append_assoc, ended]
          exact ((after.append_left _).trans before.symm).append_left _
        · refine (flatMap_set_perm_others _ found).trans ?_
          exact (flatMap_perm_others Client.tickets found).symm
        · refine (flatMap_set_perm_others _ found).trans ?_
          exact (flatMap_perm_others Client.received found).symm.trans sound.received
      · simpa [Traffic.act, found, idle] using sound
  | finish => exact ⟨sound.books.finish, sound.received⟩

/-- Whatever is done, the traffic stays sound. -/
theorem Sound.run (sound : Sound model place traffic) (deeds : List (Deed σ)) :
    Sound model place (traffic.run model deeds) := by
  induction deeds generalizing traffic with
  | nil => exact sound
  | cons deed rest ih => exact ih (sound.act deed)

/-! ## What is promised of delivery -/

/-- A page lies in one of the two stores and not in the other: in memory as it is and without a
file, or in a file as its image and not in memory. -/
def StoredOnce (model : Model σ) (traffic : Traffic σ) (page : Page σ) : Prop :=
  let file := traffic.frontier.spill.directory.child (Page.fileName page.id)
  (traffic.frontier.memory.pages[page.id]? = some page ∧ traffic.disk.exists? file = false) ∨
    (traffic.frontier.memory.pages[page.id]? = none ∧
      traffic.disk.read file = .ok (page.image model).bytes)

/-- Pages are delivered exactly once, to whom they are due and as they were enqueued. -/
structure ExactlyOnce (model : Model σ) (traffic : Traffic σ) : Prop where
  /-- Tickets are dispensed in order, from 1 on. -/
  dispensed : drawn traffic.past = List.range' 1 (drawn traffic.past).length
  /-- A ticket was dispensed before it is answered, and the answer is the page of its number. -/
  matching : ∀ ticket page, (ticket, page) ∈ delivered traffic.past →
    ticket ∈ drawn traffic.past ∧ page.id = ticket
  /-- No page number is delivered twice. -/
  once : ((delivered traffic.past).map (·.2.id)).Nodup
  /-- No page number is enqueued twice, so a page is known by its number. -/
  distinct : ((enqueued traffic.past).map Page.id).Nodup
  /-- Nothing is delivered but what was enqueued, with its capacity and its nodes in order. -/
  faithful : ∀ ticket page, (ticket, page) ∈ delivered traffic.past → page ∈ enqueued traffic.past
  /-- What clients receive is what is delivered. -/
  received : traffic.received.Perm ((delivered traffic.past).map (·.2))
  /-- A page that was enqueued and not delivered lies in exactly one store. -/
  stored : ∀ page ∈ enqueued traffic.past, page.id ∉ answered traffic.past →
    traffic.StoredOnce model page

theorem Sound.storedOnce (sound : Sound model place traffic) {page : Page σ}
    (waits : page ∈ waiting traffic.past) : traffic.StoredOnce model page := by
  have stocks := sound.books.stocks
  by_cases kept : traffic.frontier.keepsInMemory page.id = true
  · refine .inl ⟨(stocks.memory _ _).mpr ⟨waits, rfl, kept⟩, ?_⟩
    rw [Bool.eq_false_iff, ne_eq, stocks.files.exists?_iff]
    rintro ⟨other, ⟨-, spilled⟩, same⟩
    rw [same, kept] at spilled
    cases spilled
  · have spilled : page ∈ {page | page ∈ {page | page ∈ waiting traffic.past} ∧
        traffic.frontier.keepsInMemory page.id = false} := ⟨waits, by simpa using kept⟩
    refine .inr ⟨?_, ?_⟩
    · cases found : traffic.frontier.memory.pages[page.id]? with
      | none => rfl
      | some other => exact absurd ((stocks.memory _ _).mp found).2.2 kept
    · obtain ⟨stamp, held⟩ := stocks.files.stored page spilled
      exact Disk.read_eq_ok_iff.mpr ⟨_, stamp, stocks.files.located page spilled, held⟩

/-- The page sizes of a frontier never change. -/
theorem sizing_act (traffic : Traffic σ) (deed : Deed σ) :
    (traffic.act model deed).frontier.sizing = traffic.frontier.sizing := by
  cases deed with
  | claim | finish => rfl
  | add slot node =>
    simp only [Traffic.act]
    split
    · rfl
    · split <;> rfl
  | enqueue slot =>
    simp only [Traffic.act]
    split
    · rfl
    · rename_i page found
      rcases done : traffic.frontier.enqueue model page traffic.disk with ⟨result, after, final⟩
      obtain ⟨memory, rfl⟩ := Frontier.eq_of_enqueue done
      rfl
  | enqueueNode node =>
    rcases done : traffic.frontier.enqueueNode model node traffic.disk with ⟨result, after, final⟩
    obtain ⟨memory, rfl⟩ := Frontier.eq_of_enqueueNode done
    simp only [Traffic.act, done]
  | call slot drains => cases slot <;> rfl
  | access position =>
    simp only [Traffic.act]
    split
    · rfl
    · rename_i client found
      rcases call : client.call with _ | wait
      · simp only [Client.step, call]
      · obtain ⟨memory, tail, same, -⟩ :=
          (@Wait.turn_step σ model client.held traffic.frontier traffic.disk wait).frontier_eq
        simp only [Client.step, call, same]
  | retrieve position =>
    simp only [Traffic.act]
    split
    · rfl
    · split <;> rfl

theorem sizing_run (traffic : Traffic σ) (deeds : List (Deed σ)) :
    (traffic.run model deeds).frontier.sizing = traffic.frontier.sizing := by
  induction deeds generalizing traffic with
  | nil => rfl
  | cons deed rest ih => exact (ih _).trans (traffic.sizing_act deed)

theorem Sound.exactlyOnce (sound : Sound model place traffic) (lossless : model.Lossless)
    (small : ∀ id, traffic.frontier.sizing.capacity id < Page.countLimit) :
    traffic.ExactlyOnce model := by
  have returned {ticket : Nat} {page : Page σ} (member : (ticket, page) ∈ delivered traffic.past) :
      page ∈ enqueued traffic.past ∧ page.id = ticket := by
    obtain ⟨origin, there, rfl, answers⟩ := sound.books.answers _ _ member
    have fits := sound.books.fits origin (List.mem_append_right _ there)
    have less := Nat.lt_of_le_of_lt (fits.capacity ▸ fits.size) (small origin.id)
    obtain rfl := sound.books.eq_of_answers there (fun _ => less)
      (fun node _ => lossless.restores node.state) answers
    exact ⟨there, rfl⟩
  have numbered : (delivered traffic.past).map (·.2.id) = answered traffic.past := by
    rw [answered]
    apply List.map_congr_left
    intro pair member
    exact (returned member).2
  exact {
    dispensed := sound.books.order
    matching := fun ticket page member => by
      refine ⟨sound.books.tickets.mem_iff.mp ?_, (returned member).2⟩
      have answered : ticket ∈ answered traffic.past := List.mem_map.mpr ⟨_, member, rfl⟩
      simp [answered]
    once := numbered ▸ sound.books.nodup_answered
    distinct := sound.books.nodup_enqueued
    faithful := fun ticket page member => (returned member).1
    received := sound.received
    stored := fun page there waits => sound.storedOnce (mem_waiting.mpr ⟨there, waits⟩) }

/-- Whatever anybody does at a frontier, in whatever order, pages are delivered exactly once. -/
theorem delivered_exactly_once {settings : Settings} {frontier : Frontier σ} {disk ready : Disk}
    (opening : Frontier.establish settings disk = (.ok frontier, ready))
    (lossless : model.Lossless)
    (small : ∀ id, settings.pageSizing.capacity id < Page.countLimit) (deeds : List (Deed σ)) :
    ((opened frontier ready).run model deeds).ExactlyOnce model := by
  obtain ⟨-, -, sizing, -, -, place, balanced⟩ := Frontier.establish_eq_ok model opening
  have sound := (sound_opened balanced).run deeds
  refine sound.exactlyOnce lossless ?_
  rw [sizing_run, opened, sizing]
  exact small

/-- Two pages go to the two stores, the later one first, and two clients receive them. -/
theorem delivered_exactly_once_of_two :
    let grid : CounterGrid := ⟨1, 1, none⟩
    let frontier : Frontier GridState := ⟨2, .fixed 2, 1, 10, 0, .ticket 0, .empty, ⟨⟨["spill"]⟩⟩⟩
    let ready := Disk.empty.set ["spill"] .directory
    let traffic := (opened frontier ready).run grid.model
      [.claim, .add 0 ⟨⟨0, 0⟩, 1, ⟨0, 0⟩⟩, .add 0 ⟨⟨1, 0⟩, 2, ⟨0, 18⟩⟩,
        .enqueueNode ⟨⟨0, 1⟩, 2, ⟨0, 36⟩⟩, .enqueue 0, .call none false, .call none false,
        .access 0, .access 0, .access 1, .access 1, .access 1, .access 0]
    traffic.ExactlyOnce grid.model ∧ answered traffic.past = [2, 1] := by
  intro grid frontier ready traffic
  have opening : Frontier.establish { Settings.standard ⟨["spill"]⟩ with
      workers := 2, pageSizing := .fixed 2, inMemoryPages := 1 } .empty =
      (.ok frontier, ready) := rfl
  have small (id : PageId) : (PageSizing.fixed 2).capacity id < Page.countLimit := by
    show 2 < 2 ^ 32
    decide
  exact ⟨delivered_exactly_once opening grid.lossless_model small _, by decide +kernel⟩

end Traffic

end Wavefront
