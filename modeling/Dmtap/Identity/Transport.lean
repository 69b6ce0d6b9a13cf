import Dmtap.Cbor.Transport
import Dmtap.Identity.Keys
import Dmtap.Mote.Restores

/-! Identity objects survive the wire. -/
namespace Dmtap
open Dmtap.Lib Dmtap.Cbor

theorem Cap.fromCv_norm (c : Cap) : fromCv (norm c.toCv) = .ok c := by
  cases c <;> rfl

namespace DeviceCert

theorem restores (c : DeviceCert) : Restores reader (fields true c) 1 c := by
  have hkeys : KeysFrom [1, 2, 3, 4, 5, 6, 7, 8] (fields true c) :=
    (((keysFrom_self _).append (keysFrom_opt c.expires)).append (keysFrom_self _)).append
      (keysFrom_self _)
  refine ⟨⟨_, by decide, hkeys⟩, ?_, ?_, ?_⟩
  · simp only [fields, if_true, List.cons_append, List.nil_append, List.append_assoc]
    refine run_req (suiteFromCv_norm c.suite) ?_
    refine run_req rfl ?_
    refine run_req rfl ?_
    refine run_req rfl ?_
    refine run_req rfl ?_
    refine run_take (fun _ _ => rfl) (by simp) ?_
    refine run_req (asArrayOf_norm fun cap _ => cap.fromCv_norm) ?_
    refine run_req rfl ?_
    exact run_deny
  · simp [fields, Suite.toCv, Cap.toCv, Cv.keysDistinct_array]
  · simp [fields, Suite.toCv, Cap.toCv, Cv.depth_array_le]

theorem fromCv_norm (c : DeviceCert) : fromCv (norm (c.toCv true)) = .ok c := c.restores.read_norm

end DeviceCert

namespace KeyPackageBundleRef

theorem restores (k : KeyPackageBundleRef) : Restores reader k.fields 1 k := by
  have hkeys : KeysFrom [1, 2, 3] k.fields := (keysFrom_self _).append (keysFrom_opt k.suites)
  refine ⟨⟨_, by decide, hkeys⟩, ?_, ?_, ?_⟩
  · simp only [fields, List.cons_append, List.nil_append]
    refine run_req rfl ?_
    refine run_req rfl ?_
    refine run_take_last (fun s _ => asArrayOf_norm fun suite _ => suiteFromCv_norm suite) ?_
    exact run_deny
  · simp [fields, ContentId.toCv, Suite.toCv, Cv.keysDistinct_array]
  · simp [fields, ContentId.toCv, Suite.toCv, Cv.depth_array_le]

theorem fromCv_norm (k : KeyPackageBundleRef) : fromCv (norm k.toCv) = .ok k := k.restores.read_norm

end KeyPackageBundleRef

namespace KeyRotation

theorem restores (r : KeyRotation) : Restores reader (fields true true r) 0 r := by
  have hkeys : KeysFrom [1, 2, 3, 4, 5, 6, 7, 8] (fields true true r) :=
    (((keysFrom_self _).append (keysFrom_opt r.prev)).append (keysFrom_self _)).append
      (keysFrom_opt r.rotateQuorum)
  refine ⟨⟨_, by decide, hkeys⟩, ?_, ?_, ?_⟩
  · simp only [fields, if_true, List.cons_append, List.nil_append, List.append_assoc]
    refine run_req (suiteFromCv_norm r.suite) ?_
    refine run_req rfl ?_
    refine run_req rfl ?_
    refine run_req rfl ?_
    refine run_req rfl ?_
    refine run_take (fun _ _ => rfl) (by simp [keysAbove_opt]) ?_
    refine run_req rfl ?_
    refine run_take_last (fun _ _ => rfl) ?_
    exact run_deny
  · simp [fields, ContentId.toCv, Suite.toCv]
  · simp [fields, ContentId.toCv, Suite.toCv]

end KeyRotation
end Dmtap
