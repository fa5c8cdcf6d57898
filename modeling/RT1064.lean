import RT1064.Core.Run
import RT1064.Core.Fifo
import RT1064.Core.Circular
import RT1064.Ringbuffer.Basic
import RT1064.Ringbuffer.Refinement
import RT1064.Ringbuffer.Storage
import RT1064.Tasks.Basic
import RT1064.Tasks.Boot
import RT1064.Core.Records
import RT1064.Usb.Descriptor
import RT1064.Usb.SetSpeed
import RT1064.Core.Framing
import RT1064.Usb.Device
import RT1064.Usb.VirtualCom
import RT1064.Usb.Flow
import RT1064.Usb.Moves
import RT1064.Usb.Setup
import RT1064.Usb.Configuration
import RT1064.Usb.LineState
import RT1064.Usb.Notification
import RT1064.Usb.Session
import RT1064.Usb.UartState
import RT1064.Usb.BulkIn
import RT1064.Usb.Receive
import RT1064.Core.Loop
import RT1064.Core.Statistics
import RT1064.Mat.Basic
import RT1064.Mat.Wrap
import RT1064.Math.WelfordMean
import RT1064.Math.WelfordMeanVector
import RT1064.Core.RationalExpr
import RT1064.Mat.Dual
import RT1064.Mat.Cmath
import RT1064.Mat.Dcm
import RT1064.Mat.SparseVector
import RT1064.Mat.Euler
import RT1064.Mat.Quaternion
import RT1064.Math.Utilities
import RT1064.Core.Triangular
import RT1064.Mat.SquareMatrix
import RT1064.Mat.Inverse
import RT1064.Core.MoorePenrose
import RT1064.Mat.PseudoInverse
import RT1064.Core.Extended
import RT1064.Core.BinaryFloat
import RT1064.Core.SecondOrderSection
import RT1064.Core.InPlace
import RT1064.Math.Functions
import RT1064.Math.LowPassFilter2p
import RT1064.Math.NotchFilter
import RT1064.Math.FilterEquivalence
import RT1064.Math.NotchFilterParameters
import RT1064.Math.NotchFilterStability
import RT1064.Core.OrderStatistic
import RT1064.Core.SlidingWindow
import RT1064.Math.MedianFilter
import RT1064.Mat.AxisAngle
import RT1064.Core.Extremes
import RT1064.Math.AlphaFilter
import RT1064.Math.FilteredDerivative
import RT1064.Math.SecondOrderReferenceModel
import RT1064.Mat.Expm
import RT1064.Core.Semidefinite
import RT1064.Mat.Slice
import RT1064.Mat.Covariance
import RT1064.Mat.Symmetrize
import RT1064.Mat.ClosedForm
import RT1064.Mat.Kalman
import RT1064.Mat.Cholesky
import RT1064.Core.Elimination
import RT1064.Mat.Elimination
import RT1064.Mat.CholeskyInverse
import RT1064.Mat.FullRank
import RT1064.Core.GramSchmidt
import RT1064.Mat.RowFactor
import RT1064.Mat.GeninvSuccess
import RT1064.Core.Householder
import RT1064.Mat.LeastSquares
import RT1064.Mat.LeastSquaresSolve
import RT1064.Core.CopyLoop
import RT1064.Mat.SliceCopy
import RT1064.Core.Machin
import RT1064.Mat.EulerConversions
import RT1064.Mat.QuaternionVectors
import RT1064.Core.TrigSeries
import RT1064.Mat.QuaternionExponential
import RT1064.Mat.QuaternionKinematics
import RT1064.Core.LocallyAffine
import RT1064.Mat.DualPiecewise
import RT1064.Core.PiecewiseLinear
import RT1064.Math.Interpolate
import RT1064.Core.OddCurve
import RT1064.Math.StickCurves
import RT1064.Core.While
import RT1064.Math.SearchMin
import RT1064.Core.CheckedInt
import RT1064.Mat.WrapInteger
import RT1064.Core.Numerals
import RT1064.Core.Quadratic
import RT1064.Math.BrakingDistance
import RT1064.Math.CircleDistance
import RT1064.Core.RungeKutta
import RT1064.Mat.Integration
import RT1064.Math.CountSetBits
import RT1064.Core.BoundedText
import RT1064.Tasks.SystemReport
import RT1064.Core.Packing
import RT1064.Mat.UpperTriangle
import RT1064.Core.FreeList
import RT1064.Core.Guarded
import RT1064.Core.Linked
import RT1064.Core.Precedence
import RT1064.Core.Rota
import RT1064.Kernel.Portmacro
import RT1064.Kernel.Heap
import RT1064.Kernel.HeapBlocks
import RT1064.Kernel.HeapFree
import RT1064.Kernel.HeapGuarantees
import RT1064.Kernel.Lists
import RT1064.Kernel.ListsRefinement
import RT1064.Kernel.Machine
import RT1064.Kernel.MachineDelays
import RT1064.Kernel.MachineEvents
import RT1064.Kernel.MachineTurns
