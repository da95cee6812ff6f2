import CodeCompletion.Proofs.Json.Reading
import CodeCompletion.Types.Codec

namespace CodeCompletion

/-! ### Symbols inside a type -/

namespace Ty

mutual

def symbols : Ty → List Nat
  | .primitive _ | .literal _ | .named _ => []
  | .array t => symbols t
  | .promise t => symbols t
  | .object ⟨_, props, calls, constructs⟩ =>
    symbolsOfProperties props ++ (symbolsOfSignatures calls ++ symbolsOfSignatures constructs)
  | .union ms => symbolsOfMembers ms

def symbolsOfMembers : List Ty → List Nat
  | [] => []
  | t :: ts => symbols t ++ symbolsOfMembers ts

def symbolsOfProperties : List (PropertyOf Ty) → List Nat
  | [] => []
  | ⟨_, ty, _, symbol⟩ :: ps => symbol.toList ++ (symbols ty ++ symbolsOfProperties ps)

def symbolsOfSignatures : List (SignatureOf Ty) → List Nat
  | [] => []
  | ⟨params, ret⟩ :: ss => symbolsOfParams params ++ (symbols ret ++ symbolsOfSignatures ss)

def symbolsOfParams : List (ParamOf Ty) → List Nat
  | [] => []
  | ⟨_, ty, _, _⟩ :: ps => symbols ty ++ symbolsOfParams ps

end

/-! ### Records -/

theorem decodeObject_fields (name : Option String) (props : List Property)
    (calls constructs : List Signature) (propsJson callsJson constructsJson : List Json)
    (hprops : decodeProperties propsJson = some props)
    (hcalls : decodeSignatures callsJson = some calls)
    (hconstructs : decodeSignatures constructsJson = some constructs) :
    decodeObject (.obj [("call_signatures", .arr callsJson),
      ("construct_signatures", .arr constructsJson), ("name", Json.ofOption .str name),
      ("properties", .arr propsJson)]) = some ⟨name, props, calls, constructs⟩ := by
  simp only [decodeObject, objectParts, hprops, hcalls, hconstructs, Decode.nullable_string]
  rfl

theorem decodeProperty_fields (name : String) (ty : Ty) (optional : Bool) (symbol : Option Nat)
    (tyJson : Json) (hty : decode tyJson = some ty) (hsymbol : ∀ n ∈ symbol, Decode.IsNat32 n) :
    decodeProperty (.obj [("name", .str name), ("optional", .bool optional),
      ("symbol", Json.ofOption .nat symbol), ("ty", tyJson)]) =
        some ⟨name, ty, optional, symbol⟩ := by
  simp only [decodeProperty, memberParts, hty, Decode.nullable_nat32 symbol hsymbol]
  rfl

theorem decodeSignature_fields (params : List Param) (ret : Ty) (paramsJson : List Json)
    (retJson : Json) (hparams : decodeParams paramsJson = some params)
    (hret : decode retJson = some ret) :
    decodeSignature (.obj [("params", .arr paramsJson), ("ret", retJson)]) =
      some ⟨params, ret⟩ := by
  simp only [decodeSignature, signatureParts, hparams, hret]
  rfl

theorem decodeParam_fields (name : String) (ty : Ty) (optional rest : Bool) (tyJson : Json)
    (hty : decode tyJson = some ty) :
    decodeParam (.obj [("name", .str name), ("optional", .bool optional), ("rest", .bool rest),
      ("ty", tyJson)]) = some ⟨name, ty, optional, rest⟩ := by
  simp only [decodeParam, memberParts, hty]
  rfl

/-! ### All types -/

mutual

/-- Reading a type undoes writing it; one case for each form of a type and of its parts. -/
theorem decode_toJson : (t : Ty) → (∀ n ∈ t.symbols, Decode.IsNat32 n) →
    decode t.toJson = some t
  | .primitive p, _ => by
    rw [toJson, decode, Primitive.lookup_table]
    rfl
  | .literal l, _ => by cases l <;> rfl
  | .named _, _ => rfl
  | .array t, h => by
    rw [symbols] at h
    rw [toJson, decode, decode_toJson t h]
    rfl
  | .promise t, h => by
    rw [symbols] at h
    rw [toJson, decode, decode_toJson t h]
    rfl
  | .object ⟨name, props, calls, constructs⟩, h => by
    rw [symbols, List.forall_mem_append, List.forall_mem_append] at h
    obtain ⟨hprops, hcalls, hconstructs⟩ := h
    rw [toJson, decode, decodeObject_fields name props calls constructs _ _ _
      (decodeProperties_toJson props hprops) (decodeSignatures_toJson calls hcalls)
      (decodeSignatures_toJson constructs hconstructs)]
    rfl
  | .union ms, h => by
    rw [symbols] at h
    rw [toJson, decode, decodeAll_toJson ms h]
    rfl

theorem decodeAll_toJson : (ts : List Ty) →
    (∀ n ∈ symbolsOfMembers ts, Decode.IsNat32 n) → decodeAll (allToJson ts) = some ts
  | [], _ => rfl
  | t :: ts, h => by
    rw [symbolsOfMembers, List.forall_mem_append] at h
    rw [allToJson, decodeAll, decode_toJson t h.1, decodeAll_toJson ts h.2]
    rfl

theorem decodeProperties_toJson : (ps : List (PropertyOf Ty)) →
    (∀ n ∈ symbolsOfProperties ps, Decode.IsNat32 n) →
    decodeProperties (propertiesToJson ps) = some ps
  | [], _ => rfl
  | ⟨name, ty, optional, symbol⟩ :: ps, h => by
    rw [symbolsOfProperties, List.forall_mem_append, List.forall_mem_append] at h
    obtain ⟨hsymbol, hty, hps⟩ := h
    rw [propertiesToJson, decodeProperties, decodeProperty_fields name ty optional symbol _
      (decode_toJson ty hty) (fun n hn => hsymbol n (Option.mem_toList.mpr hn)),
      decodeProperties_toJson ps hps]
    rfl

theorem decodeSignatures_toJson : (ss : List (SignatureOf Ty)) →
    (∀ n ∈ symbolsOfSignatures ss, Decode.IsNat32 n) →
    decodeSignatures (signaturesToJson ss) = some ss
  | [], _ => rfl
  | ⟨params, ret⟩ :: ss, h => by
    rw [symbolsOfSignatures, List.forall_mem_append, List.forall_mem_append] at h
    obtain ⟨hparams, hret, hss⟩ := h
    rw [signaturesToJson, decodeSignatures, decodeSignature_fields params ret _ _
      (decodeParams_toJson params hparams) (decode_toJson ret hret),
      decodeSignatures_toJson ss hss]
    rfl

theorem decodeParams_toJson : (ps : List (ParamOf Ty)) →
    (∀ n ∈ symbolsOfParams ps, Decode.IsNat32 n) → decodeParams (paramsToJson ps) = some ps
  | [], _ => rfl
  | ⟨name, ty, optional, rest⟩ :: ps, h => by
    rw [symbolsOfParams, List.forall_mem_append] at h
    rw [paramsToJson, decodeParams, decodeParam_fields name ty optional rest _
      (decode_toJson ty h.1), decodeParams_toJson ps h.2]
    rfl

end

end Ty

end CodeCompletion
