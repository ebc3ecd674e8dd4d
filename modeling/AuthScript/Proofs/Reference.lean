import AuthScript.Curve.Nonce
import AuthScript.Proofs.Transfer

/-!
# References compile like roots

A script may be referred to by name, as the locking script that a signature covers, or
as the script that is signed as data. Wherever that happens, and whatever else is in
progress there, the bytes are those of the script compiled by itself.
-/

namespace AuthScript

namespace Context

/-- What a reference gives, the script gives as the root of a compilation. -/
theorem Refers.compile {ctx : Context} {p : Place} {id b : Bytes} (debug : Bool)
    (h : ctx.Refers p id b) :
    (ctx.withScripts ctx.env.scripts debug).Gives { script := id } b := by
  obtain ⟨_, _, hgives⟩ := h
  have hroot : ({ script := id } : Place).Shallower (p.enter id) := .root (p.enter id)
  exact hgives.transfer (Keeps.same ctx) (fun _ _ => rfl) hroot rfl

/-- A script that is referred to from any place, whatever scripts are in progress and
however many evaluations and brackets are open there, compiles to the same bytecode by
itself. -/
theorem compile_of_refer {ctx : Context} {p : Place} {id : Bytes} {range : Range} {b : Bytes}
    (h : (refer ctx ctx.enter p id range).result = .ok b) :
    ∃ compiled, (ctx.compile id).result = .ok compiled ∧ compiled.bytecode = b := by
  have hrefers : ctx.Refers p id b := refer_eq_ok.1 h
  exact hrefers.compile ctx.debug

end Context

/-- A locking script that names another one, and a script that signs for it. -/
def lockedByOwner : Environment where
  opcodes := .ofList [(text "OP_1", 0x51)]
  definitions := .ofList [(text "owner", { kind := .key })]
  scripts := .ofList [
    (text "data", text "OP_1 $(<'x'>)"),
    (text "lock", text "OP_1 <data>"),
    (text "unlock", text "$(<owner.signature.no_outputs_single_input>) lock")]
  unlocks := .ofList [(text "unlock", text "lock")]
  operations := .default .deterministic
  machine := some (interpreter {})

/-- The data of an owner who signs with the key one. -/
def dataOfOwner : Data where
  privateKeys := .ofList [(text "owner", List.replicate 31 0 ++ [1])]
  transaction := some {}

theorem compile_of_refer_deep :
    let ctx : Context := ⟨lockedByOwner, dataOfOwner, {}, .sync, true⟩
    let p : Place := ⟨[text "unlock"], text "lock", 3, 4⟩
    (Context.refer ctx ctx.enter p (text "data") {}).result = .ok [0x51, 0x78] ∧
      ∃ compiled, (ctx.compile (text "data")).result = .ok compiled ∧
        compiled.bytecode = [0x51, 0x78] := by
  intro ctx p
  have h : (Context.refer ctx ctx.enter p (text "data") {}).result = .ok [0x51, 0x78] := by
    decide +kernel
  exact ⟨h, Context.compile_of_refer h⟩

end AuthScript
