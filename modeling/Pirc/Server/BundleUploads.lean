import Pirc.Network.Uploads
import Pirc.Server.PircCommands

/-!
# Server: bundles uploaded in chunks

The server puts the chunks of pre-key bundles together by nickname (`prekey_store.rs`). A user who
disconnects in the middle of an upload leaves chunks behind, and the next upload finds them.
-/

namespace Pirc.Server

open Protocol Network

/-- The store of the server keeps chunks apart. -/
def bundleReassembler : Reassembler Nickname Str PreKeyBundleStore where
  fold := Nickname.fold
  add := PreKeyBundleStore.addBundleChunk
  waiting store i := store.chunkBuffer.lookup i
  add_fst _ _ _ _ _ _ _ _ := rfl
  waiting_add store nick chunk n total i _ _ _ := by
    unfold PreKeyBundleStore.addBundleChunk FoldMap.get
    -- the chunks stay where they are, or all of them are taken out
    rcases addChunk (store.chunkBuffer.lookup nick.fold) chunk n total with ⟨text, - | buffer⟩
    · exact store.chunkBuffer.lookup_remove nick i
    · exact store.chunkBuffer.lookup_insert nick i buffer

/-- **Uploads of bundles**: whatever users send in chunks, and wherever they stop, the texts that
the store returns are those that were sent to their end, each once. -/
theorem bundleUploads_returned {s : Uploading Str PreKeyBundleStore}
    (hrun : System.Steps (uploading bundleReassembler) System.Free { store := {} } s) :
    s.returned = s.completed :=
  uploads_returned (fun _ => rfl) hrun

section Toy

/-- Alice begins a bundle and stops; her next one has as many chunks. -/
def stoppedUpload : Upload := ⟨["ab".toList, "cd".toList], by decide, by decide⟩

def nextUpload : Upload := ⟨["ef".toList, "gh".toList], by decide, by decide⟩

theorem bundleUploads_returned_alice :
    ((uploading bundleReassembler).exec { store := {} } [.start alice stoppedUpload, .send alice,
      .start alice nextUpload, .send alice, .send alice]).returned =
        [(alice.fold, "efgh".toList)] :=
  bundleUploads_returned (System.Legal.steps ⟨trivial, trivial, ⟨_, _, rfl, by decide⟩, trivial, trivial,
    trivial, ⟨_, _, rfl, by decide⟩, trivial, ⟨_, _, rfl, by decide⟩, trivial, trivial⟩)

end Toy

end Pirc.Server
