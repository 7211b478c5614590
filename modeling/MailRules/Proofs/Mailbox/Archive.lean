import Mathlib
import MailRules.Mailbox.World
import MailRules.Proofs.Mailbox.Journal
import MailRules.Proofs.Mailbox.Persistence
import MailRules.Proofs.Store.Replay

/-!
# Archives

A client works with a host, and what it fetches is stored somewhere beside it. An archive is such a
place: what is listed there changes when a record is stored, and by nothing that the host does. It
may refuse a record whenever it likes, and is then as it was.

The record store of a program is an archive beside every host that keeps its hands off it
(`Store.archive`). A host that keeps no tokens has nothing to do with the disk
(`Store.spares_host`), and one that keeps them in a file spares a store that is in another
(`Store.spares_hostWithFile`).
-/

namespace MailRules

namespace Mailbox

open Http (Request)

/-- A place for records beside a host. A record that is stored takes the place of the one with its
identifier, or comes last. -/
structure Archive {ω : Type} (host : Host ω) (ε : Type) where
  put : Record → Step ω ε Unit
  listing : ω → Except ε (List Record)
  stored {r : Record} {w w' : ω} :
    (put r).run w = (.ok (), w') → listing w' = (listing w).map (Table.put r)
  refused {r : Record} {w w' : ω} {error : ε} :
    (put r).run w = (.error error, w') → listing w' = listing w
  now (w : ω) : listing (host.now.run w).2 = listing w
  send (request : Request) (w : ω) : listing ((host.send request).run w).2 = listing w
  save (tokens : Tokens) (w : ω) : listing ((host.save tokens).run w).2 = listing w

namespace Archive

variable {ω ε α : Type} {host : Host ω} (archive : Archive host ε)

theorem listing_of_run_save {tokens : Tokens} {w w' : ω} {result : Except String Unit}
    (h : (host.save tokens).run w = (result, w')) : archive.listing w' = archive.listing w := by
  have hlisted := archive.save tokens w
  rwa [h] at hlisted

theorem invariant (client : Client) (listed : Except ε (List Record)) :
    client.Invariant host fun _ w ↦ archive.listing w = listed where
  clock h := (archive.now _).trans h
  send h _ := (archive.send _ _).trans h
  saved h _ hsave := (archive.listing_of_run_save hsave).trans h
  unsaved h _ hsave := (archive.listing_of_run_save hsave).trans h

theorem listing_of_run_query {client : Client} {query : Query α} {s t : Session ω}
    {result : Except ClientError α} (h : (query.step client host).run s = (result, t)) :
    archive.listing t.world = archive.listing s.world := by
  have hkept := ((archive.invariant client _).query query s rfl trivial).1
  rwa [h] at hkept

end Archive

end Mailbox

/-! ## The store of a program -/

namespace Store

open Mailbox

variable {ν : Type}

/-- Nothing that the host does changes what the store lists. -/
structure Spares (store : Store) (host : Host (World ν)) : Prop where
  now (w : World ν) :
    (store.records.run (host.now.run w).2.disk).1 = (store.records.run w.disk).1
  send (request : Http.Request) (w : World ν) :
    (store.records.run ((host.send request).run w).2.disk).1 = (store.records.run w.disk).1
  save (tokens : Tokens) (w : World ν) :
    (store.records.run ((host.save tokens).run w).2.disk).1 = (store.records.run w.disk).1

theorem spares_host (store : Store) (network : Network ν) : store.Spares network.host where
  now _ := rfl
  send _ _ := rfl
  save _ _ := rfl

theorem run_onDisk_upsert (store : Store) (r : Record) (w : World ν) :
    (World.onDisk (store.upsert r)).run w =
      (((store.upsert r).run w.disk).1, { w with disk := ((store.upsert r).run w.disk).2 }) := rfl

/-- The store on the disk of a program, beside a host that spares it. -/
def archive (store : Store) {host : Host (World ν)} (spares : store.Spares host) :
    Archive host StoreError where
  put r := World.onDisk (store.upsert r)
  listing w := (store.records.run w.disk).1
  stored {r w w'} h := by
    rw [run_onDisk_upsert] at h
    obtain rfl := (Prod.mk.inj h).2
    exact (store.run_upsert r w.disk).2
  refused {r w w' error} h := by
    rw [run_onDisk_upsert] at h
    obtain ⟨hresult, rfl⟩ := Prod.mk.inj h
    obtain ⟨hupsert, hlisted⟩ := store.run_upsert r w.disk
    rw [hupsert] at hresult
    refine hlisted.trans ?_
    cases hbefore : (store.records.run w.disk).1 with
    | error e => rfl
    | ok records =>
      rw [hbefore] at hresult
      cases hresult
  now := spares.now
  send := spares.send
  save := spares.save

/-! ## Beside the file of the credentials -/

/-- On no disk do the store and the path lead to one place. -/
def Apart (store : Store) (path : String) : Prop :=
  ∀ own, store = .file own → ∀ (d : Disk) place place', d.find own = .ok place →
    d.find path = .ok place' → place.location ≠ place'.location

/-- Paths are told apart by their names if they begin at one place and never go up. -/
theorem apart_of_steps_ne {own path : String} (hown : ['.', '.'] ∉ Text.splitOn '/' own.toList)
    (hpath : ['.', '.'] ∉ Text.splitOn '/' path.toList)
    (hstart : own.toList.head? = some '/' ↔ path.toList.head? = some '/')
    (hsteps : Disk.steps own.toList ≠ Disk.steps path.toList) : (file own).Apart path := by
  rintro _ ⟨⟩ d place place' hfind hfind' hlocation
  rw [Disk.location_of_find hfind hown, Disk.location_of_find hfind' hpath, Disk.start, Disk.start,
    if_congr hstart rfl rfl] at hlocation
  exact hsteps (List.append_cancel_left hlocation)

theorem Apart.listing_of_write {store : Store} {path : String} (apart : store.Apart path)
    {content : List Text.Glyph} {d d' : Disk} (h : d.write path content = .ok d') :
    (store.records.run d').1 = (store.records.run d).1 := by
  cases store with
  | fleeting => rfl
  | file own =>
    have hdatabase : database own .records d' = database own .records d := by
      obtain hsame | ⟨⟨fault, hbefore⟩, fault', hafter⟩ := Disk.find_of_write h (apart own rfl d)
      · rw [database, database, hsame]
      · rw [database, database, hbefore, hafter]
    rw [fst_run_records, fst_run_records, hdatabase]

theorem spares_hostWithFile {store : Store} {path : String} (apart : store.Apart path)
    (network : Network ν) (credentials : Credentials) :
    store.Spares (network.hostWithFile path credentials) where
  now _ := rfl
  send _ _ := rfl
  save tokens w := by
    rw [Client.run_save_hostWithFile, Credentials.run_save]
    cases hwrite : w.disk.write path _ with
    | error fault => rfl
    | ok d => exact apart.listing_of_write hwrite

end Store

end MailRules
