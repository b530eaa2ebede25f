import ParforOffload.Ir
import ParforOffload.RacePromotion
import ParforOffload.Legalize
import ParforOffload.Outline
import ParforOffload.Hygiene
import ParforOffload.LocalMemory
import ParforOffload.Lower
import ParforOffload.Splice
import ParforOffload.DeepCopy
import ParforOffload.Python
import ParforOffload.Schedule
import ParforOffload.LocalArray
import ParforOffload.ShapeSignature
import ParforOffload.Atomic
import ParforOffload.Usm
import ParforOffload.SumReduction
